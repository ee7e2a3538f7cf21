import DesCartes.Impl.Tower.Discovery
import DesCartes.Proof.Sync.Notify
import DesCartes.Proof.Transport.EndpointRegistry

/-!
# Endpoints that are missed

Every change of the registry wakes all the futures that wait, with a permit for each. A future that
waits for another service takes more than one permit, and one that finds none does not look at the
registry again: so it can miss an endpoint. It misses one exactly when it is polled where there is
no permit for it, and an endpoint (`run_discovered_iff`).

* `rounds_spec`: the loop;
* `Kept.step`, `unstolen_of_discovered`: an operation.
-/

namespace DesCartes.Tower.Discovery

open AsyncRuntime (SimSleep)
open Transport (EndpointId EndpointInfo SimEndpointRegistry)

variable {ω : Type} {d d' : Discovery ω}

/-- A future that waits for a service with an endpoint has been woken since its last poll. -/
def Discovered (d : Discovery ω) : Prop :=
  ∀ i serviceName timeout j, d.waits.get i = some ⟨serviceName, .changed timeout j⟩ →
    d.inner.Registered serviceName → d.notify.Woken j

/-- The sleep of the timeout is over. -/
def Elapsed (timeout : Option (SimTime × SimSleep)) (now : SimTime) : Prop := ∃ t ∈ timeout, (pollSleep t.2 now).1 = .ready ()

/-- A future that is polled while it waits finds a permit, if its service has an endpoint and it has
not timed out. -/
def Permitted (d : Discovery ω) (now : SimTime) (wait : Wait) : Prop :=
  match wait.stage with
  | .start _ => True
  | .changed timeout _ => 0 < d.notify.state.permits ∨ ¬d.inner.Registered wait.serviceName ∨ Elapsed timeout now

/-- No poll finds its permit taken. -/
def Unstolen (d : Discovery ω) : Op ω → Prop
  | .poll i _ now => ∀ wait ∈ d.waits.get i, d.Permitted now wait
  | _ => True

/-- What holds after any operations whose polls find their permits. -/
structure Kept (d : Discovery ω) : Prop where
  registry : d.inner.WellFormed
  entered : d.notify.Entered
  waits : ∀ i serviceName timeout j, d.waits.get i = some ⟨serviceName, .changed timeout j⟩ → d.notify.Waits j
  own : ∀ i i' serviceName serviceName' timeout timeout' j, d.waits.get i = some ⟨serviceName, .changed timeout j⟩ →
    d.waits.get i' = some ⟨serviceName', .changed timeout' j⟩ → i = i'
  discovered : Discovered d

theorem kept_new : Kept (new : Discovery ω) :=
  ⟨SimEndpointRegistry.wellFormed_new, Notify.entered_new, nofun, nofun, nofun⟩

/-! ## Polls -/

/-- A poll of the future `i` does nothing to the other futures. -/
structure Beside (i : Nat) (d d' : Discovery ω) : Prop where
  registry : d'.inner.WellFormed
  endpoints : d'.inner.endpoints = d.inner.endpoints
  entered : d'.notify.Entered
  waits : ∀ i', i' ≠ i → d'.waits.get i' = d.waits.get i'
  futures : ∀ i' serviceName timeout j f, i' ≠ i → d.waits.get i' = some ⟨serviceName, .changed timeout j⟩ →
    d.notify.futures.get j = some f → d'.notify.futures.get j = some f

/-- The future `i` is done, or it waits with a `Notified` of its own. -/
def Left (i : Nat) (serviceName : List Char) (d d' : Discovery ω) : Prop :=
  d'.waits.get i = none ∨ ∃ timeout j waker, d'.waits.get i = some ⟨serviceName, .changed timeout j⟩ ∧
    d'.notify.futures.get j = some ⟨some waker, false⟩ ∧
      ∀ i' serviceName' timeout', i' ≠ i → d.waits.get i' ≠ some ⟨serviceName', .changed timeout' j⟩

theorem registered_congr {r r' : SimEndpointRegistry} (h : r'.endpoints = r.endpoints)
    {serviceName : List Char} :
    r'.Registered serviceName ↔ r.Registered serviceName := by
  rw [SimEndpointRegistry.Registered, SimEndpointRegistry.Registered, h]

/-- What a poll keeps, if the future that it leaves waiting has nothing to wait for. -/
theorem Kept.beside (h : Kept d) {i : Nat} {serviceName : List Char} (hbeside : Beside i d d')
    (hleft : Left i serviceName d d')
    (hnone : d'.waits.get i ≠ none → ¬d.inner.Registered serviceName) : Kept d' := by
  have hother : ∀ i' serviceName' timeout' j, i' ≠ i → d'.waits.get i' = some
      ⟨serviceName', .changed timeout' j⟩ →
        d.waits.get i' = some ⟨serviceName', .changed timeout' j⟩ :=
      fun i' _ _ _ hne hget => (hbeside.waits i' hne).symm.trans hget
  refine ⟨hbeside.registry, hbeside.entered, fun i' serviceName' timeout' j' hget => ?_,
    fun i₁ i₂ name₁ name₂ t₁ t₂ j' h₁ h₂ => ?_, fun i' serviceName' timeout' j' hget hregistered => ?_⟩
  · by_cases hne : i' = i
    · subst hne
      rcases hleft with hdone | ⟨timeout, j, waker, hget', hfuture, -⟩
      · cases hdone.symm.trans hget
      · cases hget'.symm.trans hget
        exact ⟨_, hfuture, Option.some_ne_none _⟩
    · have hget := hother i' _ _ j' hne hget
      obtain ⟨f, hf, hwaker⟩ := h.waits i' _ _ j' hget
      exact ⟨f, hbeside.futures i' _ _ j' f hne hget hf, hwaker⟩
  · have hown : ∀ i' name timeout, i' ≠ i → d'.waits.get i' = some ⟨name, .changed timeout j'⟩ →
        ∀ name₀ timeout₀, d'.waits.get i ≠ some ⟨name₀, .changed timeout₀ j'⟩ := by
      intro i' name timeout hne hget name₀ timeout₀ hself
      rcases hleft with hdone | ⟨t, j, waker, hself', -, hapart⟩
      · cases hdone.symm.trans hself
      · cases hself'.symm.trans hself
        exact hapart i' name timeout hne (hother i' name timeout j' hne hget)
    by_cases hne₁ : i₁ = i
    · by_cases hne₂ : i₂ = i
      · rw [hne₁, hne₂]
      · rw [hne₁] at h₁
        exact absurd h₁ (hown i₂ name₂ t₂ hne₂ h₂ name₁ t₁)
    · by_cases hne₂ : i₂ = i
      · rw [hne₂] at h₂
        exact absurd h₂ (hown i₁ name₁ t₁ hne₁ h₁ name₂ t₂)
      · exact h.own i₁ i₂ _ _ _ _ j' (hother i₁ _ _ j' hne₁ h₁) (hother i₂ _ _ j' hne₂ h₂)
  · rw [registered_congr hbeside.endpoints] at hregistered
    by_cases hne : i' = i
    · subst hne
      have hname : serviceName' = serviceName := by
        rcases hleft with hdone | ⟨timeout, j, waker, hget', -, -⟩
        · cases hdone.symm.trans hget
        · cases hget'.symm.trans hget
          rfl
      subst hname
      exact absurd hregistered (hnone (by rw [hget]; exact Option.some_ne_none _))
    · have hget := hother i' _ _ j' hne hget
      obtain ⟨f, hf, hready⟩ := h.discovered i' _ _ j' hget hregistered
      exact ⟨f, hbeside.futures i' _ _ j' f hne hget hf, hready⟩

theorem Beside.trans {i : Nat} {d'' : Discovery ω} (h : Beside i d d') (h' : Beside i d' d'') :
    Beside i d d'' := by
  refine ⟨h'.registry, h'.endpoints.trans h.endpoints, h'.entered,
    fun i' hne => (h'.waits i' hne).trans (h.waits i' hne),
    fun i' name timeout j f hne hget hf => ?_⟩
  exact h'.futures i' name timeout j f hne ((h.waits i' hne).trans hget)
    (h.futures i' name timeout j f hne hget hf)

theorem Left.beside {i : Nat} {serviceName : List Char} {d'' : Discovery ω} (h : Beside i d d')
    (hleft : Left i serviceName d' d'') :
    Left i serviceName d d'' := by
  refine hleft.imp id ?_
  rintro ⟨timeout, j, waker, hget, hfuture, hapart⟩
  refine ⟨timeout, j, waker, hget, hfuture, fun i' name timeout' hne hget' => hapart i' name timeout' hne ?_⟩
  exact (h.waits i' hne).trans hget'

variable [DecidableEq ω] {i : Nat}

omit [DecidableEq ω] in
/-- A future that is done. -/
theorem beside_finish (d d' : Discovery ω) (i : Nat) (serviceName : List Char)
    (hregistry : d'.inner.WellFormed) (hendpoints : d'.inner.endpoints = d.inner.endpoints)
    (hentered : d'.notify.Entered) (hwaits : d'.waits = d.waits)
    (hfutures : ∀ i' name timeout j f, i' ≠ i → d.waits.get i' = some ⟨name, .changed timeout j⟩ →
      d.notify.futures.get j = some f → d'.notify.futures.get j = some f)
    (endpoint : Option EndpointInfo) :
    Beside i d (d'.finish i endpoint).1 ∧ Left i serviceName d (d'.finish i endpoint).1 ∧
      (d'.finish i endpoint).1.waits.get i = none := by
  have hnone : (d'.finish i endpoint).1.waits.get i = none := Table.get_erase_self
  refine ⟨⟨hregistry, hendpoints, hentered, fun i' hne => ?_, hfutures⟩, .inl hnone, hnone⟩
  simp only [finish, Table.erase, if_neg hne, hwaits]

/-- A future whose `Notified` is pending waits, if it does not time out. -/
theorem park_spec (d : Discovery ω) (serviceName : List Char) (now : SimTime) (hregistry : d.inner.WellFormed)
    (hentered : d.notify.Entered) {wait : Wait} (hi : d.waits.get i = some wait)
    {j : Nat} {waker : ω} (hj : d.notify.futures.get j = some ⟨some waker, false⟩)
    (hapart : ∀ i' name timeout, i' ≠ i → d.waits.get i' ≠ some ⟨name, .changed timeout j⟩)
    (timeout : Option (SimTime × SimSleep)) :
    Beside i d (d.park i serviceName now timeout j).1 ∧
    Left i serviceName d (d.park i serviceName now timeout j).1 ∧
      ((d.park i serviceName now timeout j).1.waits.get i = none ↔ Elapsed timeout now) := by
  have hset : ∀ timeout', Beside i d { d with waits := d.waits.set i ⟨serviceName, .changed timeout' j⟩ } ∧
      Left i serviceName d { d with waits := d.waits.set i ⟨serviceName, .changed timeout' j⟩ } ∧
      (d.waits.set i ⟨serviceName, .changed timeout' j⟩).get i ≠ none := by
    intro timeout'
    have hself : (d.waits.set i ⟨serviceName, .changed timeout' j⟩).get i = some
        ⟨serviceName, .changed timeout' j⟩ :=
      Table.get_set_self hi
    refine ⟨⟨hregistry, rfl, hentered, fun i' hne => ?_, fun _ _ _ _ _ _ _ hf => hf⟩,
      .inr ⟨timeout', j, waker, hself, hj, hapart⟩, ?_⟩
    · simp only [Table.set, hne, if_false]
    · rw [hself]
      exact Option.some_ne_none _
  cases timeout with
  | none =>
    obtain ⟨hbeside, hleft, hwaits⟩ := hset none
    exact ⟨hbeside, hleft, iff_of_false hwaits (by rintro ⟨t, ht, -⟩; cases ht)⟩
  | some t =>
    obtain ⟨deadline, sleep⟩ := t
    rw [park]
    cases hsleep : pollSleep sleep now with
    | mk result sleep' =>
      cases result with
      | ready u =>
        obtain ⟨hbeside, hleft, hdone⟩ :=
          beside_finish d { d with notify := (d.notify.perform (.dropFuture j)).1 } i serviceName
          hregistry rfl (hentered.erase rfl j) rfl (by
            intro i' name timeout j' f hne hget hf
            refine Table.get_erase_eq_some.mpr ⟨fun heq => ?_, hf⟩
            rw [heq] at hget
            exact hapart i' name timeout hne hget) none
        exact ⟨hbeside, hleft, iff_of_true hdone ⟨_, rfl, by rw [hsleep]⟩⟩
      | pending =>
        obtain ⟨hbeside, hleft, hwaits⟩ := hset (some (deadline, sleep'))
        refine ⟨hbeside, hleft, iff_of_false hwaits ?_⟩
        rintro ⟨t, ht, hready⟩
        cases ht
        rw [hsleep] at hready
        cases hready

/-- The futures of all waits but `i` are there. -/
def Held (i : Nat) (d : Discovery ω) : Prop :=
  ∀ i' serviceName timeout j, i' ≠ i → d.waits.get i' = some ⟨serviceName, .changed timeout j⟩ →
    ∃ f, d.notify.futures.get j = some f

omit [DecidableEq ω] in
theorem Kept.held (h : Kept d) (i : Nat) : Held i d := by
  intro i' serviceName timeout j _ hget
  obtain ⟨f, hf, -⟩ := h.waits i' serviceName timeout j hget
  exact ⟨f, hf⟩

omit [DecidableEq ω] in
theorem Held.apart (h : Held i d) {j : Nat} (hj : d.notify.futures.next ≤ j) (i' : Nat)
    (name : List Char) (timeout : Option (SimTime × SimSleep)) (hne : i' ≠ i) :
    d.waits.get i' ≠ some ⟨name, .changed timeout j⟩ := by
  intro hget
  obtain ⟨f, hf⟩ := h i' name timeout j hne hget
  have := Table.lt_next hf
  omega

/-- The loop finds an endpoint if there is one, and waits with a new `Notified` otherwise, if it
does not time out. -/
theorem rounds_spec (d : Discovery ω) (serviceName : List Char) (waker : ω) (now : SimTime)
    (deadline : Option SimTime) (n : Nat) {wait : Wait} (hregistry : d.inner.WellFormed)
    (hentered : d.notify.Entered) (hheld : Held i d) (hi : d.waits.get i = some wait)
    (hn : d.notify.state.permits < n) :
    Beside i d (rounds i serviceName waker now deadline n d).1 ∧
    Left i serviceName d (rounds i serviceName waker now deadline n d).1 ∧
      ((rounds i serviceName waker now deadline n d).1.waits.get i ≠ none →
        ¬d.inner.Registered serviceName) := by
  induction n generalizing d with
  | zero => omega
  | succ n ih =>
    rw [rounds]
    obtain ⟨hwellFormed, hendpoints⟩ := hregistry.get serviceName
    rcases hregistry.getEndpointForService serviceName with ⟨counter, info, heq, -, -⟩ | ⟨heq, hnot⟩
    · rw [heq] at hwellFormed hendpoints ⊢
      obtain ⟨hbeside, hleft, hdone⟩ := beside_finish d
        { d with inner := { d.inner with roundRobinCounters := d.inner.roundRobinCounters.insert serviceName counter } } i serviceName
        hwellFormed hendpoints hentered rfl (fun _ _ _ _ _ _ _ hf => hf) (some info)
      exact ⟨hbeside, hleft, fun hwaits => absurd hdone hwaits⟩
    rw [heq]
    simp only
    split
    · obtain ⟨hbeside, hleft, hdone⟩ := beside_finish d d i serviceName hregistry rfl hentered rfl
        (fun _ _ _ _ _ _ _ hf => hf) none
      exact ⟨hbeside, hleft, fun hwaits => absurd hdone hwaits⟩
    have hnew : (d.notify.perform .notified).1.futures.get d.notify.futures.next = some ⟨none, false⟩ :=
      Table.get_insert_eq_some.mpr (.inl ⟨rfl, rfl⟩)
    have hkeep : ∀ j f, d.notify.futures.get j = some f →
        (d.notify.perform .notified).1.futures.get j = some f ∧ j ≠ d.notify.futures.next := fun j f hf =>
      ⟨Table.get_insert_eq_some.mpr (.inr hf), (Table.lt_next hf).ne⟩
    rcases Nat.eq_zero_or_pos d.notify.state.permits with hzero | hpos
    · rw [Notify.poll_of_zero (n := (d.notify.perform .notified).1) hzero]
      have hentered' := hentered.insert.queued hnew waker
      have hbeside :
          Beside i d { d with notify := (d.notify.perform .notified).1.queued d.notify.futures.next waker } :=
        ⟨hregistry, rfl, hentered', fun _ _ => rfl, fun i' name timeout j f _ _ hf =>
          (Table.get_set_eq_some hnew).mpr (.inr ⟨(hkeep j f hf).2, (hkeep j f hf).1⟩)⟩
      obtain ⟨hpark, hleft, -⟩ := park_spec { d with notify := (d.notify.perform .notified).1.queued d.notify.futures.next waker }
        serviceName now hregistry hentered' hi (Table.get_set_self hnew) (hheld.apart le_rfl)
        (deadline.map fun t => (t, .new (t.durationSince now)))
      exact ⟨hbeside.trans hpark, hleft.beside hbeside, fun _ => hnot⟩
    · -- the permit is taken, and the service is looked for again
      rw [Notify.poll_of_pos (n := (d.notify.perform .notified).1) hpos]
      have hentered' := hentered.insert.taken d.notify.futures.next
      have hbeside :
          Beside i d { d with notify := (d.notify.perform .notified).1.taken d.notify.futures.next } :=
        ⟨hregistry, rfl, hentered', fun _ _ => rfl, fun i' name timeout j f _ _ hf =>
          Table.get_erase_eq_some.mpr ⟨(hkeep j f hf).2, (hkeep j f hf).1⟩⟩
      have hheld' :
          Held i { d with notify := (d.notify.perform .notified).1.taken d.notify.futures.next } := by
        intro i' name timeout j hne hget
        obtain ⟨f, hf⟩ := hheld i' name timeout j hne hget
        exact ⟨f, hbeside.futures i' name timeout j f hne hget hf⟩
      have hless : d.notify.state.permits - 1 < n := by omega
      obtain ⟨hrest, hleft, hnone⟩ :=
        ih { d with notify := (d.notify.perform .notified).1.taken d.notify.futures.next }
        hregistry hentered' hheld' hi hless
      exact ⟨hbeside.trans hrest, hleft.beside hbeside, hnone⟩

/-- A poll leaves a future waiting whose service has an endpoint exactly when it does not find its permit. -/
theorem Kept.poll_spec (h : Kept d) {wait : Wait} (hi : d.waits.get i = some wait) (waker : ω)
    (now : SimTime) :
    Beside i d (d.poll i wait waker now).1 ∧ Left i wait.serviceName d (d.poll i wait waker now).1 ∧
      ((d.poll i wait waker now).1.waits.get i ≠ none ∧ d.inner.Registered wait.serviceName ↔
        ¬d.Permitted now wait) := by
  obtain ⟨serviceName, stage⟩ := wait
  cases stage with
  | start timeout =>
    obtain ⟨hbeside, hleft, hnone⟩ := rounds_spec d serviceName waker now
      (timeout.map fun duration => now + .fromDuration duration) (d.notify.state.permits + 1) h.registry
      h.entered (h.held i) hi (Nat.lt_succ_self _)
    exact ⟨hbeside, hleft, iff_of_false (fun hwaits => hnone hwaits.1 hwaits.2) fun hnot => hnot trivial⟩
  | changed timeout j =>
    have hapart : ∀ i' name timeout', i' ≠ i → d.waits.get i' ≠ some ⟨name, .changed timeout' j⟩ :=
      fun i' name timeout' hne hget => hne (h.own i' i name serviceName timeout' timeout j hget hi)
    obtain ⟨f, hf, -⟩ := h.waits i serviceName timeout j hi
    unfold Discovery.poll
    rcases Nat.eq_zero_or_pos d.notify.state.permits with hzero | hpos
    · simp only [Notify.poll_of_zero hzero]
      have hentered := h.entered.queued hf waker
      have hbeside : Beside i d { d with notify := d.notify.queued j waker } := by
        refine ⟨h.registry, rfl, hentered, fun _ _ => rfl, fun i' name timeout' j' g hne hget hg => ?_⟩
        refine (Table.get_set_eq_some hf).mpr (.inr ⟨fun heq => ?_, hg⟩)
        rw [heq] at hget
        exact hapart i' name timeout' hne hget
      obtain ⟨hpark, hleft, htimeout⟩ :=
        park_spec { d with notify := d.notify.queued j waker } serviceName now
        h.registry hentered hi (Table.get_set_self hf) hapart timeout
      refine ⟨hbeside.trans hpark, hleft.beside hbeside, ?_⟩
      rw [Ne, htimeout, Permitted]
      simp only [hzero, Nat.lt_irrefl, false_or, not_or, not_not]
      exact and_comm
    · simp only [Notify.poll_of_pos hpos]
      have hentered := h.entered.taken j
      have hbeside : Beside i d { d with notify := d.notify.taken j } := by
        refine ⟨h.registry, rfl, hentered, fun _ _ => rfl, fun i' name timeout' j' g hne hget hg => ?_⟩
        refine Table.get_erase_eq_some.mpr ⟨fun heq => ?_, hg⟩
        rw [heq] at hget
        exact hapart i' name timeout' hne hget
      have hheld : Held i { d with notify := d.notify.taken j } := by
        intro i' name timeout' j' hne hget
        obtain ⟨g, hg⟩ := h.held i i' name timeout' j' hne hget
        exact ⟨g, hbeside.futures i' name timeout' j' g hne hget hg⟩
      obtain ⟨hrest, hleft, hnone⟩ := rounds_spec { d with notify := d.notify.taken j } serviceName waker now
        (timeout.map (·.1)) ((d.notify.taken j).state.permits + 1)
        h.registry hentered hheld hi (Nat.lt_succ_self _)
      refine ⟨hbeside.trans hrest, hleft.beside hbeside,
        iff_of_false (fun hwaits => hnone hwaits.1 hwaits.2) ?_⟩
      exact fun hnot => hnot (.inl hpos)

/-! ## Operations -/

omit [DecidableEq ω] in
/-- Fewer futures wait, and none of them is less awake. -/
theorem Kept.of_waits (h : Kept d) (hregistry : d'.inner.WellFormed)
    (hendpoints : d'.inner.endpoints = d.inner.endpoints) (hentered : d'.notify.Entered)
    (hwaits : ∀ i serviceName timeout j, d'.waits.get i = some ⟨serviceName, .changed timeout j⟩ →
      d.waits.get i = some ⟨serviceName, .changed timeout j⟩ ∧ (d.notify.Waits j → d'.notify.Waits j) ∧
      (d.notify.Woken j → d'.notify.Woken j)) :
    Kept d' := by
  refine ⟨hregistry, hentered, fun i serviceName timeout j hget => ?_, fun i i' _ _ _ _ j hget hget' => ?_,
    fun i serviceName timeout j hget hregistered => ?_⟩
  · obtain ⟨hget, hstill, -⟩ := hwaits i serviceName timeout j hget
    exact hstill (h.waits i serviceName timeout j hget)
  · exact h.own i i' _ _ _ _ j (hwaits i _ _ j hget).1 (hwaits i' _ _ j hget').1
  · obtain ⟨hget, -, hwoken⟩ := hwaits i serviceName timeout j hget
    exact hwoken (h.discovered i serviceName timeout j hget ((registered_congr hendpoints).mp hregistered))

/-- A change of the registry wakes all the futures that wait. -/
theorem Kept.notifyWaiters (h : Kept d) {inner : SimEndpointRegistry} (hregistry : inner.WellFormed) :
    Kept { d with inner, notify := d.notify.notifyWaiters } := by
  have hnone := h.entered.notifyWaiters
  have hwaits : ∀ i serviceName timeout j, d.waits.get i = some ⟨serviceName, .changed timeout j⟩ →
      d.notify.notifyWaiters.Waits j :=
    fun i serviceName timeout j hget => (h.waits i serviceName timeout j hget).wake _
  refine ⟨hregistry, fun j w hj => absurd hj (hnone j w), hwaits, h.own,
    fun i serviceName timeout j hget _ => ?_⟩
  exact Notify.allWoken_of_forall hnone j (hwaits i serviceName timeout j hget)

theorem Kept.drop (h : Kept d) {wait : Wait} (hi : d.waits.get i = some wait) : Kept (d.drop i wait) := by
  obtain ⟨serviceName, stage⟩ := wait
  cases stage with
  | start timeout =>
    exact h.of_waits h.registry rfl h.entered fun i' _ _ _ hget =>
      ⟨(Table.get_erase_eq_some.mp hget).2, id, id⟩
  | changed timeout j =>
    refine h.of_waits h.registry rfl (h.entered.erase rfl j) fun i' name timeout' j' hget => ?_
    obtain ⟨hne, hget⟩ := Table.get_erase_eq_some.mp hget
    have hj : j' ≠ j := by
      intro heq
      rw [heq] at hget
      exact hne (h.own i' i name serviceName timeout' timeout j hget hi)
    exact ⟨hget, fun ⟨f, hf, hwaker⟩ => ⟨f, Table.get_erase_eq_some.mpr ⟨hj, hf⟩, hwaker⟩,
      fun ⟨f, hf, hready⟩ => ⟨f, Table.get_erase_eq_some.mpr ⟨hj, hf⟩, hready⟩⟩

variable {op : Op ω} {o : Output}

theorem Kept.step (h : Kept d) (hunstolen : d.Unstolen op) (hstep : d.step op = some (d', o)) : Kept d' := by
  cases op with
  | registerEndpoint endpoint =>
    obtain ⟨rfl, -⟩ := Prod.mk.inj (Option.some.inj hstep)
    cases hregister : d.inner.registerEndpoint endpoint with
    | ok inner => exact h.notifyWaiters (h.registry.registerEndpoint hregister)
    | error e => exact h
  | unregisterEndpoint endpointId =>
    obtain ⟨rfl, -⟩ := Prod.mk.inj (Option.some.inj hstep)
    cases hunregister : d.inner.unregisterEndpoint endpointId with
    | ok inner => exact h.notifyWaiters (h.registry.unregisterEndpoint hunregister)
    | error e => exact h
  | getEndpointForService serviceName =>
    cases hstep
    obtain ⟨hregistry, hendpoints⟩ := h.registry.get serviceName
    exact h.of_waits hregistry hendpoints h.entered fun _ _ _ _ hget => ⟨hget, id, id⟩
  | waitForEndpoint serviceName timeout =>
    cases hstep
    refine h.of_waits h.registry rfl h.entered fun i name timeout' j hget => ⟨?_, id, id⟩
    rcases Table.get_insert_eq_some.mp hget with ⟨-, hnew⟩ | hget
    · cases hnew
    · exact hget
  | poll i waker now =>
    obtain ⟨wait, hi, heq⟩ := Option.map_eq_some_iff.mp hstep
    obtain ⟨rfl, -⟩ := Prod.mk.inj heq
    obtain ⟨hbeside, hleft, hmissed⟩ := h.poll_spec hi waker now
    refine h.beside hbeside hleft fun hwaits hregistered => ?_
    exact hmissed.mp ⟨hwaits, hregistered⟩ (hunstolen wait hi)
  | drop i =>
    obtain ⟨wait, hi, heq⟩ := Option.map_eq_some_iff.mp hstep
    obtain ⟨rfl, -⟩ := Prod.mk.inj heq
    exact h.drop hi
  | wake waker =>
    cases hstep
    exact h.of_waits h.registry rfl (h.entered.wake [waker]) fun _ _ _ _ hget =>
      ⟨hget, (·.wake [waker]), (·.wake [waker])⟩

/-- A poll that finds no permit misses an endpoint. -/
theorem unstolen_of_discovered (h : Kept d) (hstep : d.step op = some (d', o))
    (hdiscovered : Discovered d') : d.Unstolen op := by
  cases op with
  | poll i waker now =>
    intro wait hi
    by_contra hnot
    obtain ⟨wait', hi', heq⟩ := Option.map_eq_some_iff.mp hstep
    cases hi.symm.trans hi'
    obtain ⟨rfl, -⟩ := Prod.mk.inj heq
    obtain ⟨hbeside, hleft, hmissed⟩ := h.poll_spec hi waker now
    obtain ⟨hwaits, hregistered⟩ := hmissed.mpr hnot
    obtain ⟨timeout, j, waker, hget, hfuture, -⟩ := hleft.resolve_left hwaits
    obtain ⟨f, hf, -, hwoken⟩ := hdiscovered i wait.serviceName timeout j hget
      ((registered_congr hbeside.endpoints).mpr hregistered)
    cases hfuture.symm.trans hf
    cases hwoken
  | registerEndpoint | unregisterEndpoint | getEndpointForService | waitForEndpoint | drop | wake => trivial

variable {ops : List (Op ω)} {answers : List Output}

/-- No endpoint is missed in a run exactly when no poll finds its permit taken. -/
theorem run_discovered_iff (hrun : Machine.run step (new : Discovery ω) ops = some (d, answers)) :
    Machine.Along Unstolen step (new : Discovery ω) ops ↔
      ∀ pre u before, pre <+: ops → Machine.run step (new : Discovery ω) pre = some (u, before) → Discovered u :=
  Machine.along_iff (fun _ h => h.discovered) (fun _ _ _ _ h hunstolen hstep => h.step hunstolen hstep)
    (fun _ _ _ _ h hstep hdiscovered => unstolen_of_discovered h hstep hdiscovered) kept_new hrun

/-- Two futures wait for two services, which are registered one after the other, and each time the
future of the service is polled first. -/
def inTurn : List (Op Nat) :=
  [.waitForEndpoint "a".toList none, .waitForEndpoint "b".toList none, .poll 0 0 .zero, .poll 1 1 .zero,
    .registerEndpoint (.new "b".toList "1".toList), .poll 1 1 .zero, .poll 0 0 .zero,
    .registerEndpoint (.new "a".toList "1".toList), .poll 0 0 .zero]

theorem run_discovered_iff_inTurn : ∃ d answers, Machine.run step (new : Discovery Nat) inTurn = some (d, answers) ∧
    answers[5]? = some (.polled 1 (.ready (some (.new "b".toList "1".toList)))) ∧
    answers[8]? = some (.polled 0 (.ready (some (.new "a".toList "1".toList)))) ∧
      (Machine.Along Unstolen step (new : Discovery Nat) inTurn ↔
        ∀ pre u before, pre <+: inTurn → Machine.run step (new : Discovery Nat) pre = some (u, before) → Discovered u) := by
  have hrun : (Machine.run step (new : Discovery Nat) inTurn).map (fun r => (r.2[5]?, r.2[8]?)) =
      some (some (.polled 1 (.ready (some (.new "b".toList "1".toList)))),
        some (.polled 0 (.ready (some (.new "a".toList "1".toList))))) := by
    rfl
  obtain ⟨⟨d, answers⟩, hrun, hvalues⟩ := Option.map_eq_some_iff.mp hrun
  obtain ⟨hfirst, hsecond⟩ := Prod.mk.inj hvalues
  exact ⟨d, answers, hrun, hfirst, hsecond, run_discovered_iff hrun⟩

/-- Two futures wait for two services, and the second one is registered. The first future is polled first. -/
def rival : List (Op Nat) :=
  [.waitForEndpoint "a".toList none, .waitForEndpoint "b".toList none, .poll 0 0 .zero, .poll 1 1 .zero,
    .registerEndpoint (.new "b".toList "1".toList), .poll 0 0 .zero, .poll 1 1 .zero]

/-- The first future takes the permits of both, and the second one waits on. -/
theorem not_discovered_rival : ∃ d answers, Machine.run step (new : Discovery Nat) rival = some (d, answers) ∧ ¬Discovered d := by
  have hrun : (Machine.run step (new : Discovery Nat) rival).map
      (fun r => (r.1.waits.get 1, r.1.notify.futures.get 1,
        r.1.inner.endpoints.lookup (EndpointInfo.new "b".toList "1".toList).id)) =
          some (some ⟨"b".toList, .changed none 1⟩, some ⟨some 1, false⟩, some (.new "b".toList "1".toList)) := by
    rfl
  obtain ⟨⟨d, answers⟩, hrun, hvalues⟩ := Option.map_eq_some_iff.mp hrun
  obtain ⟨hwait, hvalues⟩ := Prod.mk.inj hvalues
  obtain ⟨hfuture, hendpoint⟩ := Prod.mk.inj hvalues
  refine ⟨d, answers, hrun, fun h => ?_⟩
  obtain ⟨f, hf, -, hwoken⟩ := h 1 "b".toList none 1 hwait ⟨_, _, hendpoint, rfl⟩
  cases hfuture.symm.trans hf
  cases hwoken

end DesCartes.Tower.Discovery
