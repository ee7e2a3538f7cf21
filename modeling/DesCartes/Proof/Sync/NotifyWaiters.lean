import DesCartes.Proof.Sync.Notify

/-!
# What `notify_waiters` releases

`notify_waiters` makes an anonymous permit for each waker that it finds. `run_fulfilled`: there is a
permit for each future that it released, and none is left besides but those of `notify_one`, as long
as no future leaves a waker or a permit behind when it is dropped, none that waits is polled without a
permit, and a new one is only polled when there are no permits or more than futures that wait (`Fair`).

What carries the proof is a count again: the wakers and the permits together are enough for the futures
that wait, and exactly as many while there is a waker (`Kept`). Wakers of futures that are gone, and
several of one future, break it (`not_served_stale`), and so does a new future that overtakes
(`not_served_overtaken`).
-/

namespace DesCartes.Notify

variable {ω : Type} [DecidableEq ω]

/-- The futures that are alive and whose last poll was pending. -/
def pending (n : Notify ω) : Finset Nat :=
  (Finset.range n.futures.next).filter fun i => (n.futures.get i).any (·.waker.isSome)

section
variable {n : Notify ω} {i : Nat}

omit [DecidableEq ω] in
theorem mem_pending : i ∈ n.pending ↔ ∃ f, n.futures.get i = some f ∧ f.waker ≠ none := by
  rw [pending, Finset.mem_filter, Finset.mem_range]
  constructor
  · rintro ⟨-, h⟩
    obtain ⟨f, hf, hw⟩ := (Option.any_eq_true _ _).mp h
    exact ⟨f, hf, Option.isSome_iff_ne_none.mp hw⟩
  · rintro ⟨f, hf, hw⟩
    refine ⟨Table.lt_next hf, ?_⟩
    rw [hf]
    exact Option.isSome_iff_ne_none.mpr hw

omit [DecidableEq ω] in
theorem pending_insert : ({ n with futures := n.futures.insert ⟨none, false⟩ } : Notify ω).pending = n.pending := by
  ext j
  simp only [mem_pending, Table.get_insert_eq_some]
  constructor
  · rintro ⟨f, ⟨-, rfl⟩ | hf, hw⟩
    · exact absurd rfl hw
    · exact ⟨f, hf, hw⟩
  · rintro ⟨f, hf, hw⟩
    exact ⟨f, .inr hf, hw⟩

omit [DecidableEq ω] in
theorem pending_erase (s : State ω) : (⟨s, n.futures.erase i⟩ : Notify ω).pending = n.pending.erase i := by
  ext j
  simp only [mem_pending, Finset.mem_erase, Table.get_erase_eq_some]
  exact ⟨fun ⟨f, ⟨hne, hf⟩, hw⟩ => ⟨hne, f, hf, hw⟩, fun ⟨hne, f, hf, hw⟩ => ⟨f, ⟨hne, hf⟩, hw⟩⟩

omit [DecidableEq ω] in
theorem pending_queued {f : Notified ω} (hi : n.futures.get i = some f) (waker : ω) :
    (n.queued i waker).pending = insert i n.pending := by
  ext j
  simp only [mem_pending, Finset.mem_insert, queued, Table.get_set_eq_some hi]
  constructor
  · rintro ⟨g, ⟨rfl, -⟩ | ⟨-, hg⟩, hw⟩
    · exact .inl rfl
    · exact .inr ⟨g, hg, hw⟩
  · intro h
    by_cases hj : j = i
    · exact ⟨⟨some waker, false⟩, .inl ⟨hj, rfl⟩, by simp⟩
    · obtain ⟨g, hg, hw⟩ := h.resolve_left hj
      exact ⟨g, .inr ⟨hj, hg⟩, hw⟩

theorem pending_wake (s : State ω) (wakers : List ω) : (wake ⟨s, n.futures⟩ wakers).pending = n.pending := by
  ext j
  simp only [mem_pending, get_wake]
  constructor
  · rintro ⟨f, ⟨g, hg, rfl⟩, hw⟩
    refine ⟨g, hg, ?_⟩
    split at hw <;> exact hw
  · rintro ⟨f, hf, hw⟩
    refine ⟨_, ⟨f, hf, rfl⟩, ?_⟩
    split <;> exact hw

end

/-- A `Notify`, and what its notifications have promised. -/
structure Observed (ω : Type) where
  notify : Notify ω
  /-- The futures that were pending when `notify_waiters` was called, are alive, and have not been
  polled since. -/
  released : Finset Nat
  /-- The calls of `notify_one`, less the completions of futures that were not released. -/
  tokens : Nat

/-- What a poll returns, and what had been promised before. -/
structure Verdict where
  result : Option (Poll Unit)
  /-- The future that is polled had been released. -/
  released : Bool
  tokens : Nat
deriving DecidableEq

/-- A future that was released completes, and one that was not does so with a permit of `notify_one` only. -/
def Verdict.Fulfilled (v : Verdict) : Prop :=
  (v.released = true → v.result ≠ some .pending) ∧ (v.result = some (.ready ()) → v.released = true ∨ 0 < v.tokens)

namespace Observed

/-- `notify_waiters` was called: the futures that are pending are released. -/
def notifyWaiters (o : Observed ω) : Observed ω := { o with notify := o.notify.notifyWaiters, released := o.notify.pending }

/-- The future `i`, which is alive, is polled. -/
def poll (o : Observed ω) (i : Nat) (waker : ω) : Observed ω × Verdict :=
  let (notify, result) := o.notify.poll i waker
  (⟨notify, o.released.erase i, if result = .ready () ∧ i ∉ o.released then o.tokens - 1 else o.tokens⟩,
    ⟨some result, decide (i ∈ o.released), o.tokens⟩)

/-- One operation, and the verdict on it. -/
def perform (o : Observed ω) : Op ω → Observed ω × Verdict
  | .notifyOne => ({ o with notify := o.notify.notifyOne, tokens := o.tokens + 1 }, ⟨none, false, o.tokens⟩)
  | .notifyWaiters => (o.notifyWaiters, ⟨none, false, o.tokens⟩)
  | .poll i waker =>
    match o.notify.futures.get i with
    | none => (o, ⟨none, false, o.tokens⟩)
    | some _ => o.poll i waker
  | .dropFuture i =>
    ({ o with notify := (o.notify.perform (.dropFuture i)).1, released := o.released.erase i }, ⟨none, false, o.tokens⟩)
  | op => ({ o with notify := (o.notify.perform op).1 }, ⟨none, false, o.tokens⟩)

/-- `perform`, as a step of a machine. -/
def step (o : Observed ω) (op : Op ω) : Option (Observed ω × Verdict) := some (o.perform op)

/-- Before anything is done. -/
def new : Observed ω := ⟨.new, ∅, 0⟩

omit [DecidableEq ω] in
/-- There is a permit for each future that has been released, and besides there are those of
`notify_one` only. -/
structure Served (o : Observed ω) : Prop where
  completes : o.released.card ≤ o.notify.state.permits
  nothingLeft : o.notify.state.permits ≤ o.released.card + o.tokens

/-- How a `Notify` has to be used: a future that waits is only dropped when no waker is in the queue
and it was not released; it is only polled when there is a permit. A future that does not wait yet
is polled when there is none, or when there are more than futures that wait. And there are no more
permits and wakers than a `u64` counts. -/
def Fair (o : Observed ω) : Op ω → Prop
  | .notifyOne | .notifyWaiters => o.notify.state.permits + o.notify.state.waiters.length ≤ u64Max
  | .poll i _ => o.notify.futures.get i ≠ none →
      if i ∈ o.notify.pending then 0 < o.notify.state.permits
      else o.notify.state.permits = 0 ∨ o.notify.pending.card < o.notify.state.permits
  | .dropFuture i => i ∈ o.notify.pending → o.notify.state.waiters = [] ∧ i ∉ o.released
  | _ => True

instance (o : Observed ω) : (op : Op ω) → Decidable (o.Fair op)
  | .notifyOne => inferInstanceAs (Decidable (_ ≤ _))
  | .notifyWaiters => inferInstanceAs (Decidable (_ ≤ _))
  | .poll i _ => inferInstanceAs (Decidable (o.notify.futures.get i ≠ none →
      if i ∈ o.notify.pending then 0 < o.notify.state.permits
      else o.notify.state.permits = 0 ∨ o.notify.pending.card < o.notify.state.permits))
  | .dropFuture i => inferInstanceAs (Decidable
      (i ∈ o.notify.pending → o.notify.state.waiters = [] ∧ i ∉ o.released))
  | .notified => inferInstanceAs (Decidable True)
  | .wake _ => inferInstanceAs (Decidable True)

section
variable {o : Observed ω} {i : Nat} {waker : ω}

/-- What is observed is what the `Notify` does. -/
theorem notify_perform (o : Observed ω) (op : Op ω) : (o.perform op).1.notify = (o.notify.perform op).1 := by
  cases op with
  | poll i waker =>
    simp only [perform, Notify.perform]
    cases o.notify.futures.get i <;> rfl
  | _ => rfl

theorem result_perform (o : Observed ω) (op : Op ω) : (o.perform op).2.result = (o.notify.perform op).2 := by
  cases op with
  | poll i waker =>
    simp only [perform, Notify.perform]
    cases o.notify.futures.get i <;> rfl
  | _ => rfl

/-! ## Steps -/

/-- What holds between two operations of a run whose operations are all fair: the wakers and the permits
are enough for the futures that wait, and exactly as many while there is a waker; and the futures that
were released are those that wait, if any are left. -/
structure Kept (o : Observed ω) : Prop where
  served : o.Served
  enough : o.notify.pending.card ≤ o.notify.state.waiters.length + o.notify.state.permits
  exact : o.notify.state.waiters ≠ [] →
    o.notify.state.waiters.length + o.notify.state.permits = o.notify.pending.card
  released : o.released = ∅ ∨ o.released = o.notify.pending

omit [DecidableEq ω] in
theorem kept_new : (new : Observed ω).Kept :=
  ⟨⟨le_rfl, le_rfl⟩, le_rfl, fun h => absurd rfl h, .inl rfl⟩

omit [DecidableEq ω] in
theorem Kept.released_subset (h : o.Kept) : o.released ⊆ o.notify.pending := by
  rcases h.released with he | he
  · exact he ▸ Finset.empty_subset _
  · exact he.subset

theorem Kept.notifyOne (h : o.Kept) (hfair : o.Fair .notifyOne) : (o.perform .notifyOne).1.Kept := by
  have hcompletes := h.served.completes
  have hleft := h.served.nothingLeft
  have henough := h.enough
  have hexact := h.exact
  have hfair : o.notify.state.permits + o.notify.state.waiters.length ≤ u64Max := hfair
  simp only [Observed.perform, Notify.notifyOne]
  cases hw : o.notify.state.waiters with
  | nil =>
    rw [hw, List.length_nil] at henough
    refine ⟨⟨?_, ?_⟩, ?_, fun hne => absurd rfl hne, h.released⟩
    · show o.released.card ≤ min (o.notify.state.permits + 1) u64Max
      rw [hw, List.length_nil] at hfair
      omega
    · show min (o.notify.state.permits + 1) u64Max ≤ o.released.card + (o.tokens + 1)
      omega
    · show o.notify.pending.card ≤ 0 + min (o.notify.state.permits + 1) u64Max
      rw [hw, List.length_nil] at hfair
      omega
  | cons waker waiters =>
    -- a permit is made, and a waker is gone
    have hexact := hexact (by rw [hw]; exact List.cons_ne_nil _ _)
    rw [hw, List.length_cons] at hfair henough hexact
    have hmin : min (o.notify.state.permits + 1) u64Max = o.notify.state.permits + 1 := by omega
    have hpending := pending_wake (n := o.notify) ⟨o.notify.state.permits + 1, waiters⟩ [waker]
    rw [hmin]
    refine ⟨⟨?_, ?_⟩, ?_, fun _ => ?_, ?_⟩
    · show o.released.card ≤ o.notify.state.permits + 1
      omega
    · show o.notify.state.permits + 1 ≤ o.released.card + (o.tokens + 1)
      omega
    · rw [hpending]
      show o.notify.pending.card ≤ waiters.length + (o.notify.state.permits + 1)
      omega
    · rw [hpending]
      show waiters.length + (o.notify.state.permits + 1) = o.notify.pending.card
      omega
    · rw [hpending]
      exact h.released

theorem Kept.notifyWaiters (h : o.Kept) (hfair : o.Fair .notifyWaiters) : o.notifyWaiters.Kept := by
  have hcompletes := h.served.completes
  have hleft := h.served.nothingLeft
  have henough := h.enough
  have hfair : o.notify.state.permits + o.notify.state.waiters.length ≤ u64Max := hfair
  have hmin := min_eq_left hfair
  have hpending := pending_wake (n := o.notify)
    ⟨o.notify.state.permits + o.notify.state.waiters.length, []⟩ o.notify.state.waiters
  simp only [Observed.notifyWaiters, Notify.notifyWaiters, hmin]
  refine ⟨⟨?_, ?_⟩, ?_, fun hne => absurd rfl hne, .inr hpending.symm⟩
  · show o.notify.pending.card ≤ o.notify.state.permits + o.notify.state.waiters.length
    omega
  · show o.notify.state.permits + o.notify.state.waiters.length ≤ o.notify.pending.card + o.tokens
    by_cases hw : o.notify.state.waiters = []
    · have hsub := Finset.card_le_card h.released_subset
      rw [hw, List.length_nil]
      omega
    · have := h.exact hw
      omega
  · rw [hpending]
    show o.notify.pending.card ≤ 0 + (o.notify.state.permits + o.notify.state.waiters.length)
    omega

omit [DecidableEq ω] in
/-- A future that waits takes a permit: it was released, or none was. -/
theorem Kept.pollPending (h : o.Kept) (hi : i ∈ o.notify.pending) (hpos : 0 < o.notify.state.permits) :
    (o.poll i waker).1.Kept ∧ (o.poll i waker).2.Fulfilled := by
  have hcompletes := h.served.completes
  have hleft := h.served.nothingLeft
  have henough := h.enough
  have hpending := pending_erase (n := o.notify) (i := i)
    { o.notify.state with permits := o.notify.state.permits - 1 }
  have hcard := Finset.card_erase_of_mem hi
  have hone : 0 < o.notify.pending.card := Finset.card_pos.mpr ⟨i, hi⟩
  have hcount : (o.notify.pending.erase i).card ≤ o.notify.state.waiters.length + (o.notify.state.permits - 1) := by
    omega
  have hexact : o.notify.state.waiters ≠ [] →
      o.notify.state.waiters.length + (o.notify.state.permits - 1) = (o.notify.pending.erase i).card := fun hw => by
    have := h.exact hw
    omega
  simp only [poll, poll_of_pos hpos, taken]
  by_cases hmem : i ∈ o.released
  · have hreleased : o.released = o.notify.pending :=
      h.released.resolve_left fun he => by rw [he] at hmem; cases hmem
    have hrcard := Finset.card_erase_of_mem hmem
    have hrone : 0 < o.released.card := Finset.card_pos.mpr ⟨i, hmem⟩
    simp only [hmem, not_true_eq_false, and_false, if_false, decide_true]
    refine ⟨⟨⟨?_, ?_⟩, ?_, ?_, .inr ?_⟩, by simp [Verdict.Fulfilled]⟩
    · show (o.released.erase i).card ≤ o.notify.state.permits - 1
      omega
    · show o.notify.state.permits - 1 ≤ (o.released.erase i).card + o.tokens
      omega
    · rw [hpending]; exact hcount
    · rw [hpending]; exact hexact
    · rw [hpending, hreleased]
  · have hnone : o.released = ∅ := h.released.resolve_right fun he => hmem (he ▸ hi)
    rw [hnone, Finset.card_empty] at hcompletes hleft
    have htokens : 0 < o.tokens := by omega
    simp only [hnone, Finset.erase_empty, Finset.notMem_empty, not_false_eq_true, and_self, if_true, decide_false]
    refine ⟨⟨⟨?_, ?_⟩, ?_, ?_, .inl rfl⟩, by simp [Verdict.Fulfilled, htokens]⟩
    · show (∅ : Finset Nat).card ≤ o.notify.state.permits - 1
      exact Nat.zero_le _
    · show o.notify.state.permits - 1 ≤ (∅ : Finset Nat).card + (o.tokens - 1)
      rw [Finset.card_empty]
      omega
    · rw [hpending]; exact hcount
    · rw [hpending]; exact hexact

omit [DecidableEq ω] in
/-- A future that did not wait takes a permit of `notify_one`, or waits now. -/
theorem Kept.pollNew (h : o.Kept) {f : Notified ω} (hf : o.notify.futures.get i = some f)
    (hi : i ∉ o.notify.pending)
    (hfair : o.notify.state.permits = 0 ∨ o.notify.pending.card < o.notify.state.permits) :
    (o.poll i waker).1.Kept ∧ (o.poll i waker).2.Fulfilled := by
  have hcompletes := h.served.completes
  have hleft := h.served.nothingLeft
  have henough := h.enough
  have hmem : i ∉ o.released := fun hr => hi (h.released_subset hr)
  have herase := Finset.erase_eq_of_notMem hmem
  rcases hfair with hzero | hlt
  · -- no permit is left, so none of those that were released waits any more
    have hnone : o.released = ∅ := Finset.card_eq_zero.mp (by omega)
    have hcard := Finset.card_insert_of_notMem hi
    have hpending := pending_queued hf waker
    have hexact : o.notify.state.waiters.length = o.notify.pending.card := by
      by_cases hw : o.notify.state.waiters = []
      · rw [hw, List.length_nil] at henough ⊢
        omega
      · have := h.exact hw
        omega
    have hlength : (o.notify.state.waiters ++ [waker]).length + o.notify.state.permits =
        (insert i o.notify.pending).card := by
      rw [List.length_append, List.length_singleton, hcard]
      omega
    simp only [poll, poll_of_zero hzero, herase, hmem]
    refine ⟨⟨⟨?_, ?_⟩, ?_, fun _ => ?_, .inl hnone⟩, by simp [Verdict.Fulfilled]⟩
    · exact hcompletes
    · exact hleft
    · rw [hpending]; exact hlength.ge
    · rw [hpending]; exact hlength
  · -- the permits are more than enough, so no waker is in the queue
    have hpos : 0 < o.notify.state.permits := by omega
    have hsub := Finset.card_le_card h.released_subset
    have htokens : 0 < o.tokens := by omega
    have hwaiters : o.notify.state.waiters = [] := by
      by_contra hw
      have := h.exact hw
      omega
    have hpending := pending_erase (n := o.notify) (i := i)
      { o.notify.state with permits := o.notify.state.permits - 1 }
    rw [Finset.erase_eq_of_notMem hi] at hpending
    simp only [poll, poll_of_pos hpos, herase, hmem, not_false_eq_true, and_self, if_true, taken]
    refine ⟨⟨⟨?_, ?_⟩, ?_, fun hw => absurd hwaiters hw, ?_⟩, by simp [Verdict.Fulfilled, htokens]⟩
    · show o.released.card ≤ o.notify.state.permits - 1
      omega
    · show o.notify.state.permits - 1 ≤ o.released.card + (o.tokens - 1)
      omega
    · rw [hpending]
      show o.notify.pending.card ≤ o.notify.state.waiters.length + (o.notify.state.permits - 1)
      omega
    · rw [hpending]
      exact h.released

omit [DecidableEq ω] in
theorem Kept.dropFuture (h : o.Kept) (hfair : o.Fair (.dropFuture i)) :
    Kept { o with notify := { o.notify with futures := o.notify.futures.erase i }, released := o.released.erase i } := by
  have hpending := pending_erase (n := o.notify) (i := i) o.notify.state
  have henough := h.enough
  by_cases hi : i ∈ o.notify.pending
  · obtain ⟨hwaiters, hmem⟩ := hfair hi
    have hnone : o.released = ∅ := h.released.resolve_right fun he => hmem (he ▸ hi)
    have hle : (o.notify.pending.erase i).card ≤ o.notify.pending.card := Finset.card_erase_le
    rw [Finset.erase_eq_of_notMem hmem]
    refine ⟨⟨h.served.completes, h.served.nothingLeft⟩, ?_, fun hw => absurd hwaiters hw, .inl hnone⟩
    rw [hpending]
    exact hle.trans henough
  · have hmem : i ∉ o.released := fun hr => hi (h.released_subset hr)
    rw [Finset.erase_eq_of_notMem hi] at hpending
    rw [Finset.erase_eq_of_notMem hmem]
    refine ⟨⟨h.served.completes, h.served.nothingLeft⟩, ?_, fun hw => ?_, ?_⟩
    · rw [hpending]; exact henough
    · rw [hpending]; exact h.exact hw
    · rw [hpending]; exact h.released

/-- One fair operation. -/
theorem Kept.perform (h : o.Kept) {op : Op ω} (hfair : o.Fair op) :
    (o.perform op).1.Kept ∧ (o.perform op).2.Fulfilled := by
  have hnone : Verdict.Fulfilled ⟨none, false, o.tokens⟩ := by simp [Verdict.Fulfilled]
  cases op with
  | notifyOne => exact ⟨h.notifyOne hfair, hnone⟩
  | notifyWaiters => exact ⟨h.notifyWaiters hfair, hnone⟩
  | notified =>
    have hpending := pending_insert (n := o.notify)
    refine ⟨⟨⟨h.served.completes, h.served.nothingLeft⟩, ?_, fun hw => ?_, ?_⟩, hnone⟩
    · exact hpending ▸ h.enough
    · exact (h.exact hw).trans (congrArg Finset.card hpending).symm
    · exact h.released.imp id fun he => he.trans hpending.symm
  | poll i waker =>
    cases hi : o.notify.futures.get i with
    | none =>
      simp only [Observed.perform, hi]
      exact ⟨h, hnone⟩
    | some f =>
      have hfair := hfair (by rw [hi]; exact Option.some_ne_none _)
      simp only [Observed.perform, hi]
      by_cases hmem : i ∈ o.notify.pending
      · rw [if_pos hmem] at hfair
        exact h.pollPending hmem hfair
      · rw [if_neg hmem] at hfair
        exact h.pollNew hi hmem hfair
  | dropFuture i => exact ⟨h.dropFuture hfair, hnone⟩
  | wake waker =>
    have hpending := pending_wake (n := o.notify) o.notify.state [waker]
    refine ⟨⟨⟨h.served.completes, h.served.nothingLeft⟩, ?_, fun hw => ?_, ?_⟩, hnone⟩
    · exact hpending ▸ h.enough
    · exact (h.exact hw).trans (congrArg Finset.card hpending).symm
    · exact h.released.imp id fun he => he.trans hpending.symm

end

/-! ## Runs -/

/-- In every run whose operations are all fair: the futures that `notify_waiters` has released have
their permits, and nothing else is left of it; every future that was released completes at its next
poll, and no other does but with a permit of `notify_one`. -/
theorem run_fulfilled {ops : List (Op ω)} (hfair : Machine.Along Fair step new ops) {o : Observed ω}
    {verdicts : List Verdict} (h : Machine.run step (new : Observed ω) ops = some (o, verdicts)) :
    o.Served ∧ ∀ v ∈ verdicts, v.Fulfilled := by
  have hstep : ∀ (o : Observed ω) op o' v, o.Kept → o.Fair op → step o op = some (o', v) →
      o'.Kept ∧ v.Fulfilled := by
    intro o op o' v h hfair hs
    have := h.perform hfair
    rw [Option.some.inj hs] at this
    exact this
  refine ⟨(hfair.invariant (P := Kept) (fun o op o' v h hf hs => (hstep o op o' v h hf hs).1) kept_new h).served,
    hfair.answers hstep kept_new h⟩

/-- Two futures wait and are released, and complete; a third one, which waits after that, does not. -/
theorem run_fulfilled_two : ∃ o verdicts,
    Machine.run step (new : Observed Nat)
      (waiting ++ [.notifyWaiters, .poll 1 2, .poll 0 1, .notified, .poll 2 3]) = some (o, verdicts) ∧
    verdicts.getLast? = some ⟨some .pending, false, 0⟩ ∧ o.Served ∧ ∀ v ∈ verdicts, v.Fulfilled := by
  have hrun : Machine.run step (new : Observed Nat)
    (waiting ++ [.notifyWaiters, .poll 1 2, .poll 0 1, .notified, .poll 2 3]) = some (_, _) := rfl
  exact ⟨_, _, hrun, rfl, run_fulfilled (by decide) hrun⟩

/-- The waker of a future that was dropped is still in the queue: of the two permits that
`notify_waiters` makes one is left, and a future that is created after completes. -/
theorem not_served_stale : ∃ o verdicts,
    Machine.run step (new : Observed Nat)
      (waiting ++ [.dropFuture 1, .notifyWaiters, .poll 0 1, .notified, .poll 2 3]) = some (o, verdicts) ∧
    o.tokens = 0 ∧ verdicts.getLast? = some ⟨some (.ready ()), false, 0⟩ ∧ ¬ ∀ v ∈ verdicts, v.Fulfilled := by
  refine ⟨_, _, rfl, rfl, rfl, fun h => ?_⟩
  have := (h ⟨some (.ready ()), false, 0⟩ (by decide)).2 rfl
  exact absurd this (by decide)

/-- A future that is created after the call is polled first, and takes the permit of one that was released. -/
theorem not_served_overtaken : ∃ o verdicts,
    Machine.run step (new : Observed Nat)
      (waiting ++ [Op.notifyWaiters, .notified, .poll 2 3, .poll 0 1, .poll 1 2]) = some (o, verdicts) ∧
    verdicts.getLast? = some ⟨some .pending, true, 0⟩ ∧ ¬ ∀ v ∈ verdicts, v.Fulfilled := by
  refine ⟨_, _, rfl, rfl, fun h => ?_⟩
  exact (h ⟨some .pending, true, 0⟩ (by decide)).1 rfl rfl

end Observed

end DesCartes.Notify
