import DesCartes.Framework.Machine
import DesCartes.Framework.Trace
import DesCartes.Impl.Tower.ConcurrencyLimit
import Mathlib.Algebra.Ring.Nat

/-!
# What a limit on concurrency keeps

The slots in use are those of the services that are ready (`permits`), those of the futures that run
(`inFlight`), and those that were lost with a service that was dropped while it was ready. What an
operation can do is said once (`Effect`); what it keeps is told from there: of the slots
(`Effect.balanced`), of one future (`Effect.phase`), of who waits (`Effect.waiters`) and of one
service (`Effect.pledged`).

* `run_limited`: what a run does with the slots, and whom it wakes;
* `run_leaks`: when no slot is lost.
-/

namespace DesCartes.Tower.ConcurrencyLimit

variable {φ ρ w : Type}

namespace Output

/-- A request has been sent to the inner service, whose future is the inner one of `i`. -/
def admits (o : Output φ ρ w) (i : Nat) : Prop :=
  match o with
  | called _ j value => j = i ∧ value.inner.isSome
  | _ => False

/-- The future that has been admitted. -/
def admitted : Output φ ρ w → Option Nat
  | called _ i value => if value.inner.isSome then some i else none
  | _ => none

/-- The future `i` has been polled or dropped. -/
def concerns (o : Output φ ρ w) (i : Nat) : Prop :=
  match o with
  | polled j _ => j = i
  | dropped j => j = i
  | _ => False

/-- The future `i` has completed or been dropped. -/
def finishes (o : Output φ ρ w) (i : Nat) : Prop :=
  match o with
  | polled j (.ready _) => j = i
  | dropped j => j = i
  | _ => False

/-- A service is not ready because of the limit; it is to be woken with this waker. -/
def refuses (o : Output φ ρ w) (waker : w) : Prop :=
  match o with
  | ready _ waker' (.ready (.ok ())) .pending => waker' = waker
  | _ => False

/-- The service `i` is ready. -/
def obtains (o : Output φ ρ w) (i : Nat) : Prop :=
  match o with
  | ready j _ _ (.ready (.ok ())) => j = i
  | _ => False

/-- The service `i` has been called or dropped. -/
def spends (o : Output φ ρ w) (i : Nat) : Prop :=
  match o with
  | called j _ _ => j = i
  | droppedService j _ => j = i
  | _ => False

/-- The slots that are lost: of a service that has been dropped while it was ready. -/
def lost : Output φ ρ w → Nat
  | droppedService _ value => value.permit.toNat
  | _ => 0

variable (o : Output φ ρ w) (i : Nat)

instance : Decidable (o.admits i) := by unfold admits; split <;> infer_instance

instance : Decidable (o.concerns i) := by unfold concerns; split <;> infer_instance

instance : Decidable (o.finishes i) := by unfold finishes; split <;> infer_instance

end Output

/-- The future `i` has given back a slot. -/
def Answer.givesBack (a : Answer φ ρ w) (i : Nat) : Prop := a.output.concerns i ∧ a.released.isSome

instance (a : Answer φ ρ w) (i : Nat) : Decidable (a.givesBack i) := inferInstanceAs (Decidable (_ ∧ _))

/-- The futures that have been admitted, and have neither completed nor been dropped. -/
def live (answers : List (Answer φ ρ w)) : Finset Nat :=
  {i ∈ (answers.filterMap fun a => a.output.admitted).toFinset | ¬∃ a ∈ answers, a.output.finishes i}

/-- What a limit promises. -/
structure Limited (maxConcurrency : Nat) (answers : List (Answer φ ρ w)) : Prop where
  live_le : (live answers).card ≤ maxConcurrency
  counter : ∀ a ∈ answers, a.before ≤ maxConcurrency ∧ a.after ≤ maxConcurrency ∧ (a.released.isSome → a.after + 1 = a.before)
  once : ∀ i, (∃ a ∈ answers, a.output.admits i) →
    answers.countP (fun a => a.givesBack i) = if ∃ a ∈ answers, a.output.finishes i then 1 else 0
  /-- Who was refused is woken when a slot is given back for the first time after that. -/
  woken : Trace.Each (fun before b => ∀ waker woken, b.released = some woken →
    Trace.Since (fun a => a.output.refuses waker) (fun a => a.released.isSome) before → waker ∈ woken) answers

/-! ## What an operation does -/

/-- What an operation can do, whom it wakes if it gives back a slot, and what it returns. -/
inductive Effect (l : ConcurrencyLimit φ w) : ConcurrencyLimit φ w → Option (List w) → Output φ ρ w → Prop
  | attach : Effect l { l with services := l.services.insert ⟨false⟩ } none .done
  | ready (i : Nat) (waker : w) (inner result : Poll (Except ServiceError Unit)) :
    (result = .ready (.ok ()) → l.services.get i = some ⟨true⟩) → (inner = .ready (.ok ()) → result ≠ .pending) →
    Effect l l none (.ready i waker inner result)
  | obtain (i : Nat) (waker : w) (state : LimitState w) : l.services.get i = some ⟨false⟩ →
    l.state.tryAcquire true = some state →
    Effect l { l with state, services := l.services.set i ⟨true⟩ } none (.ready i waker (.ready (.ok ())) (.ready (.ok ())))
  | refuse (i : Nat) (waker : w) :
    Effect l { l with state := l.state.registerWaker waker } none (.ready i waker (.ready (.ok ())) .pending)
  | pass (i : Nat) (permit : Bool) (inner : φ) (state : LimitState w) : l.services.get i = some ⟨permit⟩ →
    (if permit then some l.state else l.state.tryAcquire true) = some state →
    Effect l ⟨state, l.services.set i ⟨false⟩, l.futures.insert ⟨some inner, true, none⟩⟩ none
      (.called i l.futures.next ⟨some inner, true, none⟩)
  | reject (i : Nat) : l.services.get i = some ⟨false⟩ →
    Effect l { l with futures := l.futures.insert ⟨none, false, some .notReady⟩ } none
      (.called i l.futures.next ⟨none, false, some .notReady⟩)
  | dropService (i : Nat) (service : LimitService) : l.services.get i = some service →
    Effect l { l with services := l.services.erase i } none (.droppedService i service)
  | poll (i : Nat) (future : LimitFuture φ) (result : Poll (Except ServiceError ρ)) : l.futures.get i = some future →
    (future.acquired = true → future.inner.isSome → future.immediateError = none → result = .pending) →
    Effect l { l with futures := l.futures.set i { future with immediateError := none } } none (.polled i result)
  | complete (i : Nat) (future : LimitFuture φ) (result : Except ServiceError ρ) : l.futures.get i = some future →
    future.acquired = true →
    Effect l { l with state := l.state.release.1, futures := l.futures.set i { future with acquired := false } }
      (some l.state.waiters) (.polled i (.ready result))
  | drop (i : Nat) (future : LimitFuture φ) : l.futures.get i = some future → future.acquired = false →
    Effect l { l with futures := l.futures.erase i } none (.dropped i)
  | giveBack (i : Nat) (future : LimitFuture φ) : l.futures.get i = some future → future.acquired = true →
    Effect l { l with state := l.state.release.1, futures := l.futures.erase i } (some l.state.waiters) (.dropped i)

theorem tryAcquire_eq_some {s state : LimitState w} {exchanged : Bool} :
    s.tryAcquire exchanged = some state ↔ exchanged = true ∧ s.tryAcquire true = some state := by
  cases exchanged <;> simp [LimitState.tryAcquire]

variable {limiter : Limiter} {l l' : ConcurrencyLimit φ w} {i : Nat} {released : Option (List w)} {output : Output φ ρ w}

theorem effect_pollReady {service : LimitService} {waker : w}
    {inner result : Poll (Except ServiceError Unit)} {exchanged : Bool}
    (hservice : l.services.get i = some service)
    (h : l.pollReady i service waker inner exchanged = (l', result)) :
    Effect (ρ := ρ) l l' none (.ready i waker inner result) := by
  unfold pollReady at h
  split at h
  · obtain ⟨permit⟩ := service
    cases permit with
    | true =>
      cases h
      exact .ready i waker _ _ (fun _ => hservice) (fun _ => nofun)
    | false =>
      rw [if_neg Bool.false_ne_true] at h
      split at h
      · rename_i state hstate
        cases h
        exact .obtain i waker state hservice (tryAcquire_eq_some.mp hstate).2
      · cases h
        exact .refuse i waker
  · cases h
    exact .ready i waker _ _ nofun nofun
  · cases h
    exact .ready i waker _ _ nofun nofun

theorem effect_call {service : LimitService} {inner : φ} {exchanged : Bool} {future : LimitFuture φ}
    (hservice : l.services.get i = some service) (h : l.call i service inner exchanged = (l', future)) :
    Effect (ρ := ρ) l { l' with futures := l'.futures.insert future } none
      (.called i l.futures.next future) := by
  obtain ⟨permit⟩ := service
  simp only [call] at h
  split at h
  · rename_i hacquired
    cases h
    cases permit with
    | true => cases hacquired
    | false => exact .reject i hservice
  · rename_i state hacquired
    cases h
    refine .pass i permit inner state hservice ?_
    cases permit with
    | true => exact hacquired
    | false => exact (tryAcquire_eq_some.mp hacquired).2

theorem effect_poll {future : LimitFuture φ} {inner result : Poll (Except ServiceError ρ)}
    (hfuture : l.futures.get i = some future) (h : l.poll i future inner = (l', released, result)) :
    Effect l l' released (.polled i result) := by
  obtain ⟨innerFuture, acquired, immediateError⟩ := future
  have hself (result : Poll (Except ServiceError ρ)) (hnone : immediateError = none)
      (hpending : acquired = true → innerFuture.isSome → result = .pending) : Effect l l none
      (.polled i result) := by
    subst hnone
    have := Effect.poll i _ result hfuture fun ha hi _ => hpending ha hi
    rwa [Table.set_self hfuture] at this
  unfold poll at h
  split at h
  · rename_i error herror
    cases h
    exact .poll i _ _ hfuture fun _ _ hnone => nomatch herror.symm.trans hnone
  rename_i hnone
  split at h
  · rename_i hinner
    cases h
    refine hself _ hnone fun _ hsome => ?_
    rw [show innerFuture = none from hinner] at hsome
    cases hsome
  split at h
  · cases h
    exact hself _ hnone fun _ _ => rfl
  · split at h
    · rename_i hacquired
      cases h
      exact .complete i _ _ hfuture hacquired
    · rename_i hacquired
      cases h
      exact hself _ hnone fun ha => absurd ha hacquired

theorem effect {op : Op φ ρ w} (h : l.perform limiter op = some (l', released, output)) :
    Effect l l' released output := by
  cases op with
  | new =>
    cases limiter with
    | concurrency => cases h
    | globalConcurrency =>
      cases h
      exact .attach
  | clone i =>
    obtain ⟨service, -, h⟩ := Option.map_eq_some_iff.mp h
    cases h
    exact .attach
  | pollReady i waker inner exchanged =>
    obtain ⟨service, hservice, h⟩ := Option.map_eq_some_iff.mp h
    cases h
    exact effect_pollReady hservice rfl
  | call i inner exchanged =>
    obtain ⟨service, hservice, h⟩ := Option.map_eq_some_iff.mp h
    cases h
    exact effect_call hservice rfl
  | dropService i =>
    obtain ⟨service, hservice, h⟩ := Option.map_eq_some_iff.mp h
    cases h
    exact .dropService i service hservice
  | poll i inner =>
    obtain ⟨future, hfuture, h⟩ := Option.map_eq_some_iff.mp h
    cases h
    exact effect_poll hfuture rfl
  | drop i =>
    obtain ⟨future, hfuture, h⟩ := Option.map_eq_some_iff.mp h
    simp only [ConcurrencyLimit.drop] at h
    split at h
    · rename_i hacquired
      cases h
      exact .giveBack i future hfuture hacquired
    · rename_i hacquired
      cases h
      exact .drop i future hfuture (Bool.eq_false_of_not_eq_true hacquired)

/-! ## The slots -/

/-- The slots of the services that are ready. -/
def permits (l : ConcurrencyLimit φ w) : Nat := l.services.total fun service => service.permit.toNat

/-- The slots of the futures that run. -/
def inFlight (l : ConcurrencyLimit φ w) : Nat := l.futures.total fun future => future.acquired.toNat

/-- Every slot in use is that of a service or of a future, or is lost. -/
structure Balanced (l : ConcurrencyLimit φ w) (lost : Nat) : Prop where
  counter : l.state.currentConcurrency = l.permits + l.inFlight + lost
  le : l.state.currentConcurrency ≤ l.state.maxConcurrency

theorem LimitState.tryAcquire_spec {s state : LimitState w} (h : s.tryAcquire true = some state) :
    state = { s with currentConcurrency := s.currentConcurrency + 1 } ∧
    s.currentConcurrency < s.maxConcurrency := by
  unfold LimitState.tryAcquire at h
  split at h
  · exact ⟨(Option.some.inj h).symm, ‹_›⟩
  · cases h

/-- The slot of a future that runs is given back. -/
theorem Balanced.release {lost : Nat} {futures : Table (LimitFuture φ)} (h : Balanced l lost)
    (hfutures : (futures.total fun future => future.acquired.toNat) + 1 = l.inFlight) :
    Balanced { l with state := l.state.release.1, futures } lost ∧
      l.state.release.1.currentConcurrency + 1 = l.state.currentConcurrency := by
  have hpos : 1 ≤ l.inFlight := by omega
  have hcounter := h.counter
  have hrelease : l.state.release.1.currentConcurrency = l.state.currentConcurrency - 1 := if_neg (by omega)
  refine ⟨⟨?_, ?_⟩, by omega⟩
  · show l.state.release.1.currentConcurrency =
      l.permits + (futures.total fun future => future.acquired.toNat) + lost
    omega
  · show l.state.release.1.currentConcurrency ≤ l.state.maxConcurrency
    have := h.le
    omega

theorem Effect.balanced {lost : Nat} (h : Effect l l' released output) (hl : Balanced l lost) :
    Balanced l' (lost + output.lost) ∧
      l'.state.maxConcurrency = l.state.maxConcurrency ∧
      (released.isSome → l'.state.currentConcurrency + 1 = l.state.currentConcurrency) := by
  have hcounter := hl.counter
  have hle := hl.le
  cases h with
  | attach => exact ⟨⟨by simpa [permits, inFlight, Output.lost] using hcounter, hle⟩, rfl, nofun⟩
  | ready => exact ⟨hl, rfl, nofun⟩
  | refuse => exact ⟨⟨hcounter, hle⟩, rfl, nofun⟩
  | reject => exact ⟨⟨by simpa [permits, inFlight, Output.lost] using hcounter, hle⟩, rfl, nofun⟩
  | obtain i waker state hservice hstate =>
    obtain ⟨rfl, hlt⟩ := LimitState.tryAcquire_spec hstate
    have hset := Table.total_set (f := fun service : LimitService => service.permit.toNat)
      (b := ⟨true⟩) hservice
    refine ⟨⟨?_, hlt⟩, rfl, nofun⟩
    simp only [permits, inFlight, Output.lost, Bool.toNat_true, Bool.toNat_false] at hset hcounter ⊢
    omega
  | pass i permit inner state hservice hstate =>
    have hset := Table.total_set (f := fun service : LimitService => service.permit.toNat)
      (b := ⟨false⟩) hservice
    cases permit with
    | true =>
      cases hstate
      refine ⟨⟨?_, hle⟩, rfl, nofun⟩
      simp only [permits, inFlight, Output.lost, Table.total_insert, Bool.toNat_true,
        Bool.toNat_false] at hset hcounter ⊢
      omega
    | false =>
      obtain ⟨rfl, hlt⟩ := LimitState.tryAcquire_spec hstate
      refine ⟨⟨?_, hlt⟩, rfl, nofun⟩
      simp only [permits, inFlight, Output.lost, Table.total_insert, Bool.toNat_true,
        Bool.toNat_false] at hset hcounter ⊢
      omega
  | dropService i service hservice =>
    have herase := Table.total_erase (f := fun service : LimitService => service.permit.toNat) hservice
    refine ⟨⟨?_, hle⟩, rfl, nofun⟩
    simp only [permits, inFlight, Output.lost] at herase hcounter ⊢
    omega
  | poll i future result hfuture =>
    have hset := Table.total_set (f := fun future : LimitFuture φ => future.acquired.toNat)
      (b := { future with immediateError := none }) hfuture
    refine ⟨⟨?_, hle⟩, rfl, nofun⟩
    simp only [permits, inFlight, Output.lost] at hset hcounter ⊢
    omega
  | complete i future result hfuture hacquired =>
    have hset := Table.total_set (f := fun future : LimitFuture φ => future.acquired.toNat)
      (b := { future with acquired := false }) hfuture
    rw [hacquired] at hset
    obtain ⟨h₁, h₂⟩ := hl.release hset
    exact ⟨h₁, rfl, fun _ => h₂⟩
  | drop i future hfuture hacquired =>
    have herase := Table.total_erase (f := fun future : LimitFuture φ => future.acquired.toNat) hfuture
    refine ⟨⟨?_, hle⟩, rfl, nofun⟩
    simp only [permits, inFlight, Output.lost, hacquired, Bool.toNat_false] at herase hcounter ⊢
    omega
  | giveBack i future hfuture hacquired =>
    have herase := Table.total_erase (f := fun future : LimitFuture φ => future.acquired.toNat) hfuture
    rw [hacquired] at herase
    obtain ⟨h₁, h₂⟩ := hl.release herase
    exact ⟨h₁, rfl, fun _ => h₂⟩

/-! ## One future -/

/-- What can be said of the future `i` after these operations. -/
inductive Phase (l : ConcurrencyLimit φ w) (answers : List (Answer φ ρ w)) (i : Nat) : Prop
  | unborn : l.futures.next ≤ i → (∀ a ∈ answers, ¬a.output.admits i) → (∀ a ∈ answers, ¬a.output.concerns i) →
    Phase l answers i
  | rejected : i < l.futures.next → (∀ future ∈ l.futures.get i, future.acquired = false) →
    (∀ a ∈ answers, ¬a.output.admits i) → Phase l answers i
  | running (future : LimitFuture φ) : l.futures.get i = some future → future.acquired = true → future.inner.isSome →
    future.immediateError = none → (∃ a ∈ answers, a.output.admits i) → (∀ a ∈ answers, ¬a.output.finishes i) →
    answers.countP (fun a => a.givesBack i) = 0 → Phase l answers i
  | finished : i < l.futures.next → (∀ future ∈ l.futures.get i, future.acquired = false) →
    (∃ a ∈ answers, a.output.admits i) → (∃ a ∈ answers, a.output.finishes i) →
    answers.countP (fun a => a.givesBack i) = 1 → Phase l answers i

variable {answers : List (Answer φ ρ w)} {a : Answer φ ρ w}

theorem exists_snoc {P : Answer φ ρ w → Prop} : (∃ x ∈ answers ++ [a], P x) ↔ (∃ x ∈ answers, P x) ∨ P a := by
  simp [or_and_right, exists_or]

theorem forall_snoc {P : Answer φ ρ w → Prop} : (∀ x ∈ answers ++ [a], P x) ↔ (∀ x ∈ answers, P x) ∧ P a := by
  simp [or_imp, forall_and]

theorem Output.concerns_of_finishes {o : Output φ ρ w} (h : o.finishes i) : o.concerns i := by
  unfold Output.finishes at h
  split at h
  · exact h
  · exact h
  · cases h

variable (answers) in
theorem countP_snoc_of_not (h : ¬a.givesBack i) :
    (answers ++ [a]).countP (fun a => a.givesBack i) = answers.countP (fun a => a.givesBack i) := by
  rw [List.countP_append, List.countP_singleton, if_neg (by simpa using h)]
  rfl

theorem countP_snoc (h : a.givesBack i) :
    (answers ++ [a]).countP (fun a => a.givesBack i) = answers.countP (fun a => a.givesBack i) + 1 := by
  rw [List.countP_append, List.countP_singleton, if_pos (by simpa using h)]

/-- Of a future that the operation is not about. -/
theorem Phase.other (h : Phase l answers i) (hadmits : ¬a.output.admits i) (hconcerns : ¬a.output.concerns i)
    (hget : l'.futures.get i = l.futures.get i) (hnext : l'.futures.next ≤ i ↔ l.futures.next ≤ i) :
    Phase l' (answers ++ [a]) i := by
  have hcount := countP_snoc_of_not answers (show ¬a.givesBack i from fun h => hconcerns h.1)
  cases h with
  | unborn h₁ h₂ h₃ =>
    exact .unborn (hnext.mpr h₁) (forall_snoc.mpr ⟨h₂, hadmits⟩) (forall_snoc.mpr ⟨h₃, hconcerns⟩)
  | rejected h₁ h₂ h₃ => exact .rejected (by omega) (hget ▸ h₂) (forall_snoc.mpr ⟨h₃, hadmits⟩)
  | running future h₁ h₂ h₃ h₄ h₅ h₆ h₇ =>
    exact .running future (hget ▸ h₁) h₂ h₃ h₄ (exists_snoc.mpr (.inl h₅))
      (forall_snoc.mpr ⟨h₆, fun hf => hconcerns (Output.concerns_of_finishes hf)⟩) (hcount ▸ h₇)
  | finished h₁ h₂ h₃ h₄ h₅ =>
    exact .finished (by omega) (hget ▸ h₂) (exists_snoc.mpr (.inl h₃)) (exists_snoc.mpr (.inl h₄))
      (hcount ▸ h₅)

theorem Phase.of_insert (h : Phase l answers l.futures.next) :
    (∀ x ∈ answers, ¬x.output.admits l.futures.next) ∧ ∀ x ∈ answers, ¬x.output.concerns l.futures.next := by
  have hnone : l.futures.get l.futures.next = none := l.futures.get_of_le _ le_rfl
  cases h with
  | unborn h₁ h₂ h₃ => exact ⟨h₂, h₃⟩
  | rejected h₁ => exact absurd h₁ (lt_irrefl _)
  | running future h₁ =>
    rw [hnone] at h₁
    cases h₁
  | finished h₁ => exact absurd h₁ (lt_irrefl _)

/-- A future that holds a slot is running. -/
theorem Phase.held (hl : Phase l answers i) {future : LimitFuture φ} (hfuture : l.futures.get i = some future)
    (hacquired : future.acquired = true) :
    future.inner.isSome ∧ future.immediateError = none ∧ (∃ x ∈ answers, x.output.admits i) ∧
      (∀ x ∈ answers, ¬x.output.finishes i) ∧ answers.countP (fun a => a.givesBack i) = 0 := by
  cases hl with
  | unborn h₁ => exact absurd (Table.lt_next hfuture) (by omega)
  | rejected h₁ h₂ => exact absurd (h₂ future hfuture) (by simp [hacquired])
  | running f h₁ h₂ h₃ h₄ h₅ h₆ h₇ =>
    cases h₁.symm.trans hfuture
    exact ⟨h₃, h₄, h₅, h₆, h₇⟩
  | finished h₁ h₂ => exact absurd (h₂ future hfuture) (by simp [hacquired])

/-- A future that holds a slot gives it back. -/
theorem Phase.gaveBack (hl : Phase l answers i) {future : LimitFuture φ}
    (hfuture : l.futures.get i = some future) (hacquired : future.acquired = true)
    (hgives : a.givesBack i) (hfinishes : a.output.finishes i)
    (hnext : l'.futures.next = l.futures.next)
    (hfree : ∀ f ∈ l'.futures.get i, f.acquired = false) :
    Phase l' (answers ++ [a]) i := by
  obtain ⟨-, -, hadmitted, -, hcount⟩ := hl.held hfuture hacquired
  refine .finished (hnext ▸ Table.lt_next hfuture) hfree (exists_snoc.mpr (.inl hadmitted))
    (exists_snoc.mpr (.inr hfinishes)) ?_
  rw [countP_snoc hgives, hcount]

/-- A future that holds no slot is polled or dropped. -/
theorem Phase.idle (hl : Phase l answers i) {future : LimitFuture φ} (hfuture : l.futures.get i = some future)
    (hacquired : future.acquired = false) (hadmits : ¬a.output.admits i) (hgives : ¬a.givesBack i)
    (hnext : l'.futures.next = l.futures.next) (hfree : ∀ f ∈ l'.futures.get i, f.acquired = false) :
    Phase l' (answers ++ [a]) i := by
  have hlt : i < l'.futures.next := hnext ▸ Table.lt_next hfuture
  cases hl with
  | unborn h₁ => exact absurd (Table.lt_next hfuture) (by omega)
  | rejected h₁ h₂ h₃ => exact .rejected hlt hfree (forall_snoc.mpr ⟨h₃, hadmits⟩)
  | running f h₁ h₂ =>
    cases h₁.symm.trans hfuture
    exact absurd hacquired (by simp [h₂])
  | finished h₁ h₂ h₃ h₄ h₅ =>
    exact .finished hlt hfree (exists_snoc.mpr (.inl h₃)) (exists_snoc.mpr (.inl h₄))
      (countP_snoc_of_not answers hgives ▸ h₅)

theorem Effect.phase (h : Effect l l' a.released a.output) (hl : Phase l answers i) :
    Phase l' (answers ++ [a]) i := by
  obtain ⟨before, after, released, output⟩ := a
  simp only at h
  cases h with
  | attach => exact hl.other id id rfl Iff.rfl
  | ready => exact hl.other id id rfl Iff.rfl
  | obtain => exact hl.other id id rfl Iff.rfl
  | refuse => exact hl.other id id rfl Iff.rfl
  | dropService => exact hl.other id id rfl Iff.rfl
  | pass j permit inner state =>
    by_cases hi : i = l.futures.next
    · subst hi
      obtain ⟨h₁, h₂⟩ := hl.of_insert
      refine .running ⟨some inner, true, none⟩ (Table.get_insert_eq_some.mpr (.inl ⟨rfl, rfl⟩)) rfl rfl rfl
        (exists_snoc.mpr (.inr ⟨rfl, rfl⟩))
        (forall_snoc.mpr ⟨fun x hx hf => h₂ x hx (Output.concerns_of_finishes hf), id⟩) ?_
      have hno :
          ¬(⟨before, after, none, .called j l.futures.next ⟨some inner, true, none⟩⟩ : Answer φ ρ w).givesBack
        l.futures.next := fun h => nomatch h.2
      rw [countP_snoc_of_not answers hno, List.countP_eq_zero]
      exact fun x hx hg => h₂ x hx (of_decide_eq_true hg).1
    · exact hl.other (fun h => hi h.1.symm) id (if_neg hi) (by simp only [Table.next_insert]; omega)
  | reject j =>
    by_cases hi : i = l.futures.next
    · subst hi
      refine .rejected (Nat.lt_succ_self _) (fun future hfuture => ?_)
        (forall_snoc.mpr ⟨hl.of_insert.1, fun h => nomatch h.2⟩)
      rcases Table.get_insert_eq_some.mp hfuture with ⟨-, rfl⟩ | hfuture
      · rfl
      · exact absurd (Table.lt_next hfuture) (lt_irrefl _)
    · exact hl.other (fun h => hi h.1.symm) id (if_neg hi) (by simp only [Table.next_insert]; omega)
  | poll j future result hfuture hpending =>
    by_cases hi : i = j
    · subst hi
      have hgives : ¬(⟨before, after, none, .polled i result⟩ : Answer φ ρ w).givesBack i :=
        fun h => nomatch h.2
      have hset := Table.get_set_self (b := { future with immediateError := none }) hfuture
      by_cases hacquired : future.acquired = true
      · obtain ⟨hinner, herror, hadmitted, hfinishes, hcount⟩ := hl.held hfuture hacquired
        obtain rfl := hpending hacquired hinner herror
        exact .running _ hset hacquired hinner rfl (exists_snoc.mpr (.inl hadmitted))
          (forall_snoc.mpr ⟨hfinishes, id⟩)
          ((countP_snoc_of_not answers hgives).trans hcount)
      · have hfree : future.acquired = false := Bool.eq_false_of_not_eq_true hacquired
        refine hl.idle hfuture hfree id hgives rfl fun f hf => ?_
        cases hset.symm.trans hf
        exact hfree
    · exact hl.other id (fun h => hi h.symm) (if_neg hi) Iff.rfl
  | complete j future result hfuture hacquired =>
    by_cases hi : i = j
    · subst hi
      have hset := Table.get_set_self (b := { future with acquired := false }) hfuture
      refine hl.gaveBack hfuture hacquired ⟨rfl, rfl⟩ rfl rfl fun f hf => ?_
      cases hset.symm.trans hf
      rfl
    · exact hl.other id (fun h => hi h.symm) (if_neg hi) Iff.rfl
  | drop j future hfuture hacquired =>
    by_cases hi : i = j
    · subst hi
      have hgives : ¬(⟨before, after, none, .dropped i⟩ : Answer φ ρ w).givesBack i := fun h => nomatch h.2
      refine hl.idle hfuture hacquired id hgives rfl fun f hf => ?_
      rw [show (l.futures.erase i).get i = none from Table.get_erase_self] at hf
      cases hf
    · exact hl.other id (fun h => hi h.symm) (if_neg hi) Iff.rfl
  | giveBack j future hfuture hacquired =>
    by_cases hi : i = j
    · subst hi
      refine hl.gaveBack hfuture hacquired ⟨rfl, rfl⟩ rfl rfl fun f hf => ?_
      rw [show (l.futures.erase i).get i = none from Table.get_erase_self] at hf
      cases hf
    · exact hl.other id (fun h => hi h.symm) (if_neg hi) Iff.rfl

/-! ## Who waits -/

/-- Who has been refused, with no slot given back since, is registered. -/
def Waits (l : ConcurrencyLimit φ w) (answers : List (Answer φ ρ w)) : Prop :=
  ∀ waker, Trace.Since (fun a => a.output.refuses waker) (fun a => a.released.isSome) answers → waker ∈ l.state.waiters

theorem LimitState.tryAcquire_waiters {s state : LimitState w}
    (h : s.tryAcquire true = some state) : state.waiters = s.waiters := by
  rw [(LimitState.tryAcquire_spec h).1]

/-- What an operation does to the wakers: it wakes them all, or keeps them. -/
theorem Effect.waiters (h : Effect l l' released output) :
    (∀ woken, released = some woken → woken = l.state.waiters) ∧
    (released = none → ∀ waker ∈ l.state.waiters, waker ∈ l'.state.waiters) ∧
    ∀ waker, output.refuses waker → waker ∈ l'.state.waiters := by
  cases h with
  | attach => exact ⟨nofun, fun _ _ => id, nofun⟩
  | ready i waker inner result h₁ h₂ =>
    refine ⟨nofun, fun _ _ => id, fun waker hrefuses => ?_⟩
    unfold Output.refuses at hrefuses
    split at hrefuses
    · rename_i heq
      cases heq
      exact absurd rfl (h₂ rfl)
    · cases hrefuses
  | obtain i waker state hservice hstate =>
    exact ⟨nofun, fun _ waker hw => (LimitState.tryAcquire_waiters hstate).symm ▸ hw, nofun⟩
  | refuse i waker =>
    refine ⟨nofun, fun _ waker hw => List.mem_append_left _ hw, ?_⟩
    rintro waker' rfl
    exact List.mem_append_right _ List.mem_cons_self
  | pass i permit inner state hservice hstate =>
    refine ⟨nofun, fun _ waker hw => ?_, nofun⟩
    cases permit with
    | true =>
      cases hstate
      exact hw
    | false => exact (LimitState.tryAcquire_waiters hstate).symm ▸ hw
  | reject => exact ⟨nofun, fun _ _ => id, nofun⟩
  | dropService => exact ⟨nofun, fun _ _ => id, nofun⟩
  | poll => exact ⟨nofun, fun _ _ => id, nofun⟩
  | complete => exact ⟨fun _ h => (Option.some.inj h).symm, nofun, nofun⟩
  | drop => exact ⟨nofun, fun _ _ => id, nofun⟩
  | giveBack => exact ⟨fun _ h => (Option.some.inj h).symm, nofun, nofun⟩

theorem Effect.waits (h : Effect l l' a.released a.output) (hl : Waits l answers) :
    Waits l' (answers ++ [a]) := by
  intro waker hsince
  obtain ⟨-, hkeep, hrefused⟩ := h.waiters
  rcases Trace.since_concat.mp hsince with ⟨hsince, hnone⟩ | hrefuses
  · exact hkeep (Option.not_isSome_iff_eq_none.mp hnone) waker (hl waker hsince)
  · exact hrefused waker hrefuses

/-! ## One service -/

/-- A service that has a slot was ready, and has not been called since. -/
def Pledged (l : ConcurrencyLimit φ w) (answers : List (Answer φ ρ w)) : Prop :=
  ∀ i, l.services.get i = some ⟨true⟩ → Trace.Since (fun a => a.output.obtains i) (fun a => a.output.spends i) answers

theorem Effect.pledged (h : Effect l l' a.released a.output) (hl : Pledged l answers) :
    Pledged l' (answers ++ [a]) := by
  obtain ⟨before, after, released, output⟩ := a
  simp only at h
  intro i hi
  rw [Trace.since_concat]
  cases h with
  | attach =>
    rcases Table.get_insert_eq_some.mp hi with ⟨-, hfalse⟩ | hi
    · cases hfalse
    · exact .inl ⟨hl i hi, id⟩
  | ready => exact .inl ⟨hl i hi, id⟩
  | obtain j waker state hservice =>
    rcases (Table.get_set_eq_some hservice).mp hi with ⟨rfl, -⟩ | ⟨-, hi⟩
    · exact .inr rfl
    · exact .inl ⟨hl i hi, id⟩
  | refuse => exact .inl ⟨hl i hi, id⟩
  | pass j permit inner state hservice =>
    rcases (Table.get_set_eq_some hservice).mp hi with ⟨-, hfalse⟩ | ⟨hne, hi⟩
    · cases hfalse
    · exact .inl ⟨hl i hi, fun h => hne h.symm⟩
  | reject j hservice =>
    refine .inl ⟨hl i hi, fun h => ?_⟩
    obtain rfl : j = i := h
    have hi : l.services.get j = some ⟨true⟩ := hi
    rw [hservice] at hi
    cases hi
  | dropService j service =>
    obtain ⟨hne, hi⟩ := Table.get_erase_eq_some.mp hi
    exact .inl ⟨hl i hi, fun h => hne h.symm⟩
  | poll => exact .inl ⟨hl i hi, id⟩
  | complete => exact .inl ⟨hl i hi, id⟩
  | drop => exact .inl ⟨hl i hi, id⟩
  | giveBack => exact .inl ⟨hl i hi, id⟩

/-! ## Runs -/

/-- The slots that have been lost. -/
def lost (answers : List (Answer φ ρ w)) : Nat := (answers.map fun a => a.output.lost).sum

/-- What holds after any operations. -/
structure Kept (maxConcurrency : Nat) (l : ConcurrencyLimit φ w) (answers : List (Answer φ ρ w)) : Prop where
  balanced : Balanced l (lost answers)
  max_eq : l.state.maxConcurrency = maxConcurrency
  counter : ∀ a ∈ answers, a.before ≤ maxConcurrency ∧ a.after ≤ maxConcurrency ∧ (a.released.isSome → a.after + 1 = a.before)
  phase : ∀ i, Phase l answers i
  waits : Waits l answers
  woken : Trace.Each (fun before b => ∀ waker woken, b.released = some woken →
    Trace.Since (fun a => a.output.refuses waker) (fun a => a.released.isSome) before → waker ∈ woken) answers
  pledged : Pledged l answers

variable {maxConcurrency : Nat}

theorem kept_new :
    Kept maxConcurrency (new limiter maxConcurrency : ConcurrencyLimit φ w) ([] : List (Answer φ ρ w)) where
  balanced := by cases limiter <;> exact ⟨rfl, Nat.zero_le _⟩
  max_eq := by cases limiter <;> rfl
  counter := List.forall_mem_nil _
  phase i := .unborn (Nat.zero_le i) (List.forall_mem_nil _) (List.forall_mem_nil _)
  waits waker h := absurd h Trace.not_since_nil
  woken := .nil
  pledged i hi := by
    cases limiter with
    | concurrency =>
      rcases Table.get_insert_eq_some.mp hi with ⟨-, hfalse⟩ | hi
      · cases hfalse
      · cases hi
    | globalConcurrency => cases hi

/-- What an operation says of itself, and does. -/
theorem step_spec {op : Op φ ρ w} (h : l.step limiter op = some (l', a)) :
    a.before = l.state.currentConcurrency ∧ a.after = l'.state.currentConcurrency ∧
    Effect l l' a.released a.output := by
  obtain ⟨⟨l₁, released, output⟩, hperform, h⟩ := Option.map_eq_some_iff.mp h
  cases h
  exact ⟨rfl, rfl, effect hperform⟩

theorem Kept.step {op : Op φ ρ w} (h : Kept maxConcurrency l answers)
    (hstep : l.step limiter op = some (l', a)) :
    Kept maxConcurrency l' (answers ++ [a]) := by
  obtain ⟨hbefore, hafter, heffect⟩ := step_spec hstep
  obtain ⟨hbalanced, hmax, hreleased⟩ := heffect.balanced h.balanced
  have hmax' : l'.state.maxConcurrency = maxConcurrency := hmax.trans h.max_eq
  refine ⟨?_, hmax', forall_snoc.mpr ⟨h.counter, ?_, ?_, ?_⟩, fun i => heffect.phase (h.phase i),
    heffect.waits h.waits,
    h.woken.concat fun waker woken hwoken hsince => ?_, heffect.pledged h.pledged⟩
  · have hlost : lost (answers ++ [a]) = lost answers + a.output.lost := by simp [lost]
    rw [hlost]
    exact hbalanced
  · rw [hbefore, ← h.max_eq]
    exact h.balanced.le
  · rw [hafter, ← hmax']
    exact hbalanced.le
  · rw [hbefore, hafter]
    exact hreleased
  · rw [heffect.waiters.1 woken hwoken]
    exact h.waits waker hsince

theorem run_kept {ops : List (Op φ ρ w)}
    (hrun : Machine.run (step limiter) (new limiter maxConcurrency) ops = some (l, answers)) :
    Kept maxConcurrency l answers :=
  Machine.run_history (fun _ _ _ _ _ h hs => h.step hs) kept_new hrun

theorem mem_live :
    i ∈ live answers ↔ (∃ a ∈ answers, a.output.admits i) ∧ ∀ a ∈ answers, ¬a.output.finishes i := by
  have hadmitted (o : Output φ ρ w) : o.admitted = some i ↔ o.admits i := by
    cases o <;> simp [Output.admitted, Output.admits, and_comm]
  simp [live, hadmitted]

/-- The futures that run are those that have a slot. -/
theorem Kept.running (h : Kept maxConcurrency l answers) (hi : i ∈ live answers) :
    ∃ future, l.futures.get i = some future ∧ future.acquired = true := by
  obtain ⟨⟨a, ha, hadmits⟩, hfinishes⟩ := mem_live.mp hi
  cases h.phase i with
  | unborn h₁ h₂ => exact absurd hadmits (h₂ a ha)
  | rejected h₁ h₂ h₃ => exact absurd hadmits (h₃ a ha)
  | running future h₁ h₂ => exact ⟨future, h₁, h₂⟩
  | finished h₁ h₂ h₃ h₄ =>
    obtain ⟨b, hb, hf⟩ := h₄
    exact absurd hf (hfinishes b hb)

/-- In any run: the futures that run and the counter stay within the limit, a future gives its slot
back once, when it completes or is dropped, and who waits for a slot is woken when one is given
back. -/
theorem run_limited {ops : List (Op φ ρ w)}
    (hrun : Machine.run (step limiter) (new limiter maxConcurrency) ops = some (l, answers)) : Limited maxConcurrency answers := by
  have h := run_kept hrun
  refine ⟨?_, h.counter, fun i hi => ?_, h.woken⟩
  · have hcard : (live answers).card ≤ l.inFlight := Table.card_le_total fun i hi => by
      obtain ⟨future, hfuture, hacquired⟩ := h.running hi
      exact ⟨future, hfuture, by simp [hacquired]⟩
    have := h.balanced.counter
    have := h.balanced.le
    have := h.max_eq
    omega
  · obtain ⟨a, ha, hadmits⟩ := hi
    cases h.phase i with
    | unborn h₁ h₂ => exact absurd hadmits (h₂ a ha)
    | rejected h₁ h₂ h₃ => exact absurd hadmits (h₃ a ha)
    | running future h₁ h₂ h₃ h₄ h₅ h₆ h₇ => rw [h₇, if_neg fun ⟨b, hb, hf⟩ => h₆ b hb hf]
    | finished h₁ h₂ h₃ h₄ h₅ => rw [h₅, if_pos h₄]

/-- Two clones of a service with one slot: the second one waits until the future of the first one
has completed. -/
def twoClones : List (Op Unit Unit Nat) :=
  [.clone 0, .pollReady 0 7 (.ready (.ok ())) true, .pollReady 1 8 (.ready (.ok ())) true, .call 0 () true,
    .poll 0 (.ready (.ok ())), .drop 0, .pollReady 1 8 (.ready (.ok ())) true]

theorem run_limited_twoClones : ∃ (l : ConcurrencyLimit Unit Nat) (answers : List (Answer Unit Unit Nat)),
    Machine.run (step .concurrency) (new .concurrency 1) twoClones = some (l, answers) ∧
    (answers.filterMap (·.released)) = [[8]] ∧ Limited 1 answers :=
  have hrun := (rfl : Machine.run (step .concurrency) (new .concurrency 1) twoClones = some (_, _))
  ⟨_, _, hrun, rfl, run_limited hrun⟩

/-! ## Slots that are lost -/

/-- Every request has been answered or given up, and every service that was ready has been called or
dropped. -/
structure Quiet (answers : List (Answer φ ρ w)) : Prop where
  finished : ∀ i, (∃ a ∈ answers, a.output.admits i) → ∃ a ∈ answers, a.output.finishes i
  spent : ∀ i, ¬Trace.Since (fun a => a.output.obtains i) (fun a => a.output.spends i) answers

/-- The operation drops a service that is ready and has not been called. -/
def DropsReady (l : ConcurrencyLimit φ w) : Op φ ρ w → Prop
  | .dropService i => l.services.get i = some ⟨true⟩
  | _ => False

theorem dropsReady_iff {op : Op φ ρ w} (h : l.step limiter op = some (l', a)) :
    l.DropsReady op ↔ a.output.lost ≠ 0 := by
  obtain ⟨⟨l₁, released, output⟩, hperform, h⟩ := Option.map_eq_some_iff.mp h
  cases h
  cases op with
  | dropService i =>
    obtain ⟨service, hservice, h⟩ := Option.map_eq_some_iff.mp hperform
    cases h
    obtain ⟨permit⟩ := service
    cases permit <;> simp [DropsReady, Output.lost, hservice]
  | new =>
    cases limiter with
    | concurrency => cases hperform
    | globalConcurrency =>
      cases hperform
      exact ⟨False.elim, fun h => h rfl⟩
  | _ =>
    obtain ⟨_, -, h⟩ := Option.map_eq_some_iff.mp hperform
    cases h
    exact ⟨False.elim, fun h => h rfl⟩

/-- When it is quiet, the slots in use are those that were lost. -/
theorem Kept.quiet (h : Kept maxConcurrency l answers) (hquiet : Quiet answers) :
    l.state.currentConcurrency = lost answers := by
  have hpermits : l.permits = 0 := Table.total_eq_zero fun i service hservice => by
    obtain ⟨permit⟩ := service
    cases permit with
    | false => rfl
    | true => exact absurd (h.pledged i hservice) (hquiet.spent i)
  have hflight : l.inFlight = 0 := Table.total_eq_zero fun i future hfuture => by
    by_contra hne
    have hacquired : future.acquired = true := by
      cases hb : future.acquired with
      | false => exact absurd (by rw [hb]; rfl) hne
      | true => rfl
    cases h.phase i with
    | unborn h₁ => exact absurd (Table.lt_next hfuture) (by omega)
    | rejected h₁ h₂ => exact absurd (h₂ future hfuture) (by simp [hacquired])
    | running f h₁ h₂ h₃ h₄ h₅ h₆ =>
      obtain ⟨b, hb, hf⟩ := hquiet.finished i h₅
      exact h₆ b hb hf
    | finished h₁ h₂ => exact absurd (h₂ future hfuture) (by simp [hacquired])
  rw [h.balanced.counter, hpermits, hflight, Nat.zero_add]

/-- When it is quiet after a run, no slot is in use, if and only if no service was dropped between
its readiness and its call. -/
theorem run_leaks {ops : List (Op φ ρ w)}
    (hrun : Machine.run (step limiter) (new limiter maxConcurrency) ops = some (l, answers)) (hquiet : Quiet answers) :
    l.state.currentConcurrency = 0 ↔
      Machine.Along (fun l op => ¬l.DropsReady op) (step limiter) (new limiter maxConcurrency) ops := by
  rw [(run_kept hrun).quiet hquiet, Machine.along_iff_answers
    (fun _ _ _ _ hs => (dropsReady_iff hs).not) hrun]
  simp [lost, List.sum_eq_zero_iff]

/-- A service is ready, and is called or dropped. -/
def readyThen (limiter : Limiter) (op : Op Unit Unit Nat) : List (Op Unit Unit Nat) :=
  (match limiter with
  | .concurrency => []
  | .globalConcurrency => [.new]) ++ [.pollReady 0 7 (.ready (.ok ())) true, op]

/-- A slot is lost. -/
def Leaks (limiter : Limiter) : Prop :=
  ∃ (l : ConcurrencyLimit Unit Nat) (answers : List (Answer Unit Unit Nat)),
    Machine.run (step limiter) (new limiter 1) (readyThen limiter (.dropService 0)) = some (l, answers) ∧ Quiet answers ∧
      l.state.currentConcurrency = 1

theorem leaks_dropReady : Leaks .concurrency ∧ Leaks .globalConcurrency := by
  have hquiet (before : List (Answer Unit Unit Nat))
      (hbefore : before = [] ∨ before = [⟨0, 0, none, .done⟩]) :
        Quiet (before ++ [⟨0, 1, none, .ready 0 7 (.ready (.ok ())) (.ready (.ok ()))⟩,
          ⟨1, 1, none, .droppedService 0 ⟨true⟩⟩]) := by
    rcases hbefore with rfl | rfl
    all_goals
      constructor
      · simp [Output.admits]
      · simp [Trace.since_cons, Trace.not_since_nil, Output.obtains, Output.spends]
  exact ⟨⟨_, _, rfl, hquiet [] (.inl rfl), rfl⟩, ⟨_, _, rfl, hquiet [⟨0, 0, none, .done⟩] (.inr rfl), rfl⟩⟩

theorem run_leaks_called : ∃ (l : ConcurrencyLimit Unit Nat) (answers : List (Answer Unit Unit Nat)),
    Machine.run (step .concurrency) (new .concurrency 1) (readyThen .concurrency (.call 0 () true) ++ [.drop 0]) =
      some (l, answers) ∧ l.state.currentConcurrency = 0 := by
  have hquiet :
      Quiet ([⟨0, 1, none, .ready 0 7 (.ready (.ok ())) (.ready (.ok ()))⟩,
        ⟨1, 1, none, .called 0 0 ⟨some (), true, none⟩⟩,
      ⟨1, 0, some [], .dropped 0⟩] : List (Answer Unit Unit Nat)) := by
    constructor
    · simp [Output.admits, Output.finishes]
    · simp [Trace.since_cons, Trace.not_since_nil, Output.obtains, Output.spends]
  have hrun := (rfl : Machine.run (step .concurrency) (new .concurrency 1 : ConcurrencyLimit Unit Nat)
    (readyThen .concurrency (.call 0 () true) ++ [.drop 0]) = some (_, _))
  exact ⟨_, _, hrun, (run_leaks hrun hquiet).mpr (by simp [readyThen, Machine.Along, DropsReady])⟩

end DesCartes.Tower.ConcurrencyLimit
