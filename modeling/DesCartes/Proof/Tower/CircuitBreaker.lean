import DesCartes.Framework.Machine
import DesCartes.Impl.Tower.CircuitBreaker

/-!
# How long a breaker stays open

A breaker that opens is to admit nothing until its timeout is over. It is kept open by the one task
that the opening spawns (`Guarded`), as long as nothing else closes it: a request that has been
admitted before and succeeds later does.

* `Guarded.step`: what an operation keeps that is not such a success;
* `run_protected`: any run without one.
-/

namespace DesCartes.Tower

/-- The breaker is open. -/
def CircuitBreakerState.isOpen : CircuitBreakerState → Bool
  | .opened _ => true
  | _ => false

namespace CircuitBreakerState

theorem shouldAllowRequest_eq (state : CircuitBreakerState) :
    state.shouldAllowRequest = !state.isOpen :=
  by cases state <;> rfl

/-- A failure opens the breaker exactly when it schedules a recovery, and only if the breaker was not open. -/
theorem fail_cases (failureThreshold : Nat) (state : CircuitBreakerState) :
    ((state.fail failureThreshold).2 = none ∧ (state.fail failureThreshold).1.isOpen = state.isOpen) ∨
    ∃ generation, (state.fail failureThreshold).2 = some generation ∧ state.isOpen = false ∧
      (state.fail failureThreshold).1.isOpen = true := by
  cases state with
  | closed failureCount =>
    by_cases h : failureThreshold ≤ failureCount + 1
    · refine .inr ⟨1, ?_⟩
      simp [fail, h, nextGeneration, isOpen]
    · refine .inl ?_
      simp [fail, h, isOpen]
  | opened generation => exact .inl ⟨rfl, rfl⟩
  | halfOpen => exact .inr ⟨1, rfl, rfl, rfl⟩

end CircuitBreakerState

/-- When the sleep of a task is over, if it is polled now. -/
def Recovery.due (r : Recovery) (now : SimTime) : SimTime := r.sleep.targetTime.getD (now + .fromDuration r.sleep.duration)

theorem Recovery.due_mono (r : Recovery) {a b : SimTime} (h : a ≤ b) : r.due a ≤ r.due b := by
  rw [due, due]
  cases r.sleep.targetTime with
  | none => exact SimTime.add_le_add h le_rfl
  | some target => exact le_rfl

namespace CircuitBreaker

variable {φ ω : Type}

namespace Answer

/-- The operation has opened the breaker. -/
def opens (a : Answer φ ω) : Prop := a.before.isOpen = false ∧ a.after.isOpen = true

instance (a : Answer φ ω) : Decidable a.opens := inferInstanceAs (Decidable (_ ∧ _))

/-- The operation has admitted a request to the inner service. -/
def admits (a : Answer φ ω) : Prop :=
  match a.output with
  | .called future => future.inner.isSome
  | _ => False

instance (a : Answer φ ω) : Decidable a.admits := by
  unfold admits
  split <;> infer_instance

end Answer

/-- After an opening no request is admitted until the timeout is over. -/
def Protected (recoveryTimeout : Nat) (answers : List (Answer φ ω)) : Prop :=
  answers.Pairwise fun a b => a.opens → b.admits → a.now + .fromDuration recoveryTimeout ≤ b.now

instance (recoveryTimeout : Nat) (answers : List (Answer φ ω)) : Decidable (Protected recoveryTimeout answers) :=
  inferInstanceAs (Decidable (List.Pairwise _ _))

/-- The operation is the poll of a future that has been admitted and succeeds. -/
def Succeeds (b : CircuitBreaker φ) : Op φ ω → Prop
  | .poll i (.ready (.ok _)) => ∃ future ∈ b.futures.get i, future.immediateError = none ∧ future.inner.isSome
  | _ => False

/-! ## What an operation does -/

variable {failureThreshold recoveryTimeout : Nat} {b b' : CircuitBreaker φ} {op : Op φ ω}

/-- What an operation does to the state, the tasks and the clock. -/
inductive Effect (recoveryTimeout : Nat) (b : CircuitBreaker φ) (op : Op φ ω) (b' : CircuitBreaker φ) : Prop
  | keep : b'.recoveries = b.recoveries → b'.state.isOpen = b.state.isOpen → b.clock ≤ b'.clock → Effect recoveryTimeout b op b'
  | close : b.Succeeds op → b'.recoveries = b.recoveries → b'.state.isOpen = false → b'.clock = b.clock →
    Effect recoveryTimeout b op b'
  | opening (generation : Nat) : b.state.isOpen = false → b'.state.isOpen = true →
    b'.recoveries = b.recoveries.insert ⟨generation, .new recoveryTimeout⟩ → b'.clock = b.clock → Effect recoveryTimeout b op b'
  | wait (i : Nat) (r r' : Recovery) : b.recoveries.get i = some r → b'.recoveries = b.recoveries.set i r' →
    r'.sleep.targetTime = some (r.due b.clock) → b'.state = b.state → b'.clock = b.clock → Effect recoveryTimeout b op b'
  | finish (i : Nat) (r : Recovery) : b.recoveries.get i = some r → r.due b.clock ≤ b.clock →
    b'.recoveries = b.recoveries.erase i → (b.state.isOpen = false → b'.state.isOpen = false) → b'.clock = b.clock →
    Effect recoveryTimeout b op b'

theorem effect_poll {i : Nat} {future : CircuitBreakerFuture φ}
    {inner result : Poll (Except ServiceError ω)} (hfuture : b.futures.get i = some future)
    (h : b.poll failureThreshold recoveryTimeout i future inner = (b', result)) :
    Effect recoveryTimeout b (.poll i inner) b' := by
  unfold poll at h
  split at h
  · cases h
    exact .keep rfl rfl le_rfl
  rename_i herror
  split at h
  · cases h
    exact .keep rfl rfl le_rfl
  rename_i x hinner
  split at h
  · cases h
    exact .close ⟨future, hfuture, herror, by rw [hinner]; rfl⟩ rfl rfl rfl
  · have hcases := b.state.fail_cases failureThreshold
    generalize b.state.fail failureThreshold = q at h hcases
    obtain ⟨state, toSchedule⟩ := q
    cases h
    rcases hcases with ⟨rfl, hopen⟩ | ⟨generation, rfl, hclosed, hopen⟩
    · exact .keep rfl hopen le_rfl
    · exact .opening generation hclosed hopen rfl rfl
  · cases h
    exact .keep rfl rfl le_rfl

theorem effect_recover {i : Nat} {r : Recovery} (hr : b.recoveries.get i = some r) (op : Op φ ω) :
    Effect recoveryTimeout b op (b.recover i r) := by
  by_cases hdue : r.due b.clock ≤ b.clock
  · have hpoll :
        pollSleep r.sleep b.clock = (.ready (),
          { r.sleep with targetTime := some (r.due b.clock), timerScheduled := false }) :=
      if_pos hdue
    rw [recover, hpoll]
    refine .finish i r hr hdue rfl (fun hclosed => ?_) rfl
    show CircuitBreakerState.isOpen (if b.state = .opened r.generation then .halfOpen else b.state) = false
    split
    · rfl
    · exact hclosed
  · have hpoll :
        pollSleep r.sleep b.clock = (.pending,
          { r.sleep with targetTime := some (r.due b.clock), timerScheduled := true }) :=
      if_neg hdue
    rw [recover, hpoll]
    exact .wait i r _ hr rfl rfl rfl rfl

/-- What an operation says of itself, and does. A request is admitted only while the breaker is not open. -/
structure Stepped (recoveryTimeout : Nat) (b : CircuitBreaker φ) (op : Op φ ω) (b' : CircuitBreaker φ) (a : Answer φ ω) : Prop where
  now : a.now = b.clock
  before : a.before = b.state
  after : a.after = b'.state
  admits : a.admits → b.state.isOpen = false
  effect : Effect recoveryTimeout b op b'

theorem stepped {a : Answer φ ω} (h : b.step failureThreshold recoveryTimeout op = some (b', a)) :
    Stepped recoveryTimeout b op b' a := by
  obtain ⟨⟨b₁, output⟩, hperform, h⟩ := Option.map_eq_some_iff.mp h
  cases h
  cases op with
  | advance delay =>
    cases hperform
    exact ⟨rfl, rfl, rfl, nofun, .keep rfl rfl (SimTime.le_add ..)⟩
  | pollReady inner =>
    cases hperform
    exact ⟨rfl, rfl, rfl, nofun, .keep rfl rfl le_rfl⟩
  | call inner =>
    cases hperform
    refine ⟨rfl, rfl, rfl, fun ha => ?_, .keep rfl rfl le_rfl⟩
    by_contra hopen
    have hrejects : b.call inner = ⟨none, some .overloaded⟩ := by
      refine if_neg ?_
      rw [CircuitBreakerState.shouldAllowRequest_eq, Bool.not_eq_true', ← ne_eq]
      exact hopen
    rw [Answer.admits, hrejects] at ha
    cases ha
  | poll i inner =>
    obtain ⟨future, hfuture, h⟩ := Option.map_eq_some_iff.mp hperform
    cases h
    exact ⟨rfl, rfl, rfl, nofun, effect_poll hfuture rfl⟩
  | recover i =>
    obtain ⟨r, hr, h⟩ := Option.map_eq_some_iff.mp hperform
    cases h
    exact ⟨rfl, rfl, rfl, nofun, effect_recover hr _⟩
  | drop i =>
    obtain ⟨future, -, h⟩ := Option.map_eq_some_iff.mp hperform
    cases h
    exact ⟨rfl, rfl, rfl, nofun, .keep rfl rfl le_rfl⟩

/-! ## Runs -/

/-- After the openings so far: while the breaker is open its one task, if it is alive, waits until
the timeouts are over, and otherwise they are. -/
structure Guarded (recoveryTimeout : Nat) (b : CircuitBreaker φ) (answers : List (Answer φ ω)) : Prop where
  expired : b.state.isOpen = false → ∀ a ∈ answers, a.opens → a.now + .fromDuration recoveryTimeout ≤ b.clock
  waits : ∀ i r, b.recoveries.get i = some r → b.state.isOpen = true ∧
    ∀ a ∈ answers, a.opens → a.now + .fromDuration recoveryTimeout ≤ r.due b.clock
  unique : ∀ i j r q, b.recoveries.get i = some r → b.recoveries.get j = some q → i = j
  guarded : Protected recoveryTimeout answers

variable {answers : List (Answer φ ω)} {a : Answer φ ω}

/-- Where the operation does not open the breaker, the openings are those so far. -/
theorem openings_concat {P : Answer φ ω → Prop} (hno : ¬a.opens) (h : ∀ x ∈ answers, x.opens → P x) :
    ∀ x ∈ answers ++ [a], x.opens → P x :=
  List.forall_mem_append.mpr ⟨h, List.forall_mem_singleton.mpr fun ha => absurd ha hno⟩

theorem Stepped.opens_iff (h : Stepped recoveryTimeout b op b' a) :
    a.opens ↔ b.state.isOpen = false ∧ b'.state.isOpen = true := by
  rw [Answer.opens, h.before, h.after]

theorem Guarded.protected_concat (h : Guarded recoveryTimeout b answers)
    (hstepped : Stepped recoveryTimeout b op b' a) :
    Protected recoveryTimeout (answers ++ [a]) := by
  refine List.pairwise_append.mpr ⟨h.guarded, List.pairwise_singleton ..,
    fun x hx => List.forall_mem_singleton.mpr ?_⟩
  intro hopens hadmits
  rw [hstepped.now]
  exact h.expired (hstepped.admits hadmits) x hx hopens

/-- There is no task while the breaker is not open. -/
theorem Guarded.recoveries_ne (h : Guarded recoveryTimeout b answers)
    (hclosed : b.state.isOpen = false) (i : Nat) (r : Recovery) :
    b.recoveries.get i ≠ some r := fun hr => by
  rw [(h.waits i r hr).1] at hclosed
  cases hclosed

/-- The breaker is open as before, and its task waits as long. -/
theorem Guarded.goesOn (h : Guarded recoveryTimeout b answers)
    (hstepped : Stepped recoveryTimeout b op b' a) (hopen : b'.state.isOpen = b.state.isOpen)
    (hclock : b.clock ≤ b'.clock)
    (hget : ∀ i r, b'.recoveries.get i = some r → ∃ r', b.recoveries.get i = some r' ∧
      r'.due b.clock ≤ r.due b'.clock) :
    Guarded recoveryTimeout b' (answers ++ [a]) := by
  have hno : ¬a.opens := fun ha => by
    obtain ⟨h₁, h₂⟩ := hstepped.opens_iff.mp ha
    rw [hopen, h₁] at h₂
    cases h₂
  refine ⟨fun hc => openings_concat hno fun x hx hxo => (h.expired (hopen ▸ hc) x hx hxo).trans hclock,
    fun i r hr => ?_,
    fun i j r q hr hq => ?_, h.protected_concat hstepped⟩
  · obtain ⟨r', hr', hdue⟩ := hget i r hr
    obtain ⟨h₁, h₂⟩ := h.waits i r' hr'
    exact ⟨hopen.trans h₁, openings_concat hno fun x hx hxo => (h₂ x hx hxo).trans hdue⟩
  · obtain ⟨r', hr', -⟩ := hget i r hr
    obtain ⟨q', hq', -⟩ := hget j q hq
    exact h.unique i j r' q' hr' hq'

/-- There is no task, and the timeouts are over. -/
theorem Guarded.recovered (h : Guarded recoveryTimeout b answers)
    (hstepped : Stepped recoveryTimeout b op b' a)
    (hopen : b.state.isOpen = false → b'.state.isOpen = false)
    (hnone : ∀ i r, b'.recoveries.get i ≠ some r)
    (hexpired : ∀ x ∈ answers, x.opens → x.now + .fromDuration recoveryTimeout ≤ b'.clock) :
    Guarded recoveryTimeout b' (answers ++ [a]) := by
  have hno : ¬a.opens := fun ha => by
    obtain ⟨h₁, h₂⟩ := hstepped.opens_iff.mp ha
    rw [hopen h₁] at h₂
    cases h₂
  exact ⟨fun _ => openings_concat hno hexpired, fun i r hr => absurd hr (hnone i r),
    fun i _ r _ hr => absurd hr (hnone i r),
    h.protected_concat hstepped⟩

/-- The breaker is opened, and its one task is scheduled. -/
theorem Guarded.opening (h : Guarded recoveryTimeout b answers)
    (hstepped : Stepped recoveryTimeout b op b' a) {generation : Nat}
    (hbefore : b.state.isOpen = false) (hopen : b'.state.isOpen = true)
    (hrecoveries : b'.recoveries = b.recoveries.insert ⟨generation, .new recoveryTimeout⟩)
    (hclock : b'.clock = b.clock) :
    Guarded recoveryTimeout b' (answers ++ [a]) := by
  refine ⟨fun hc => ?_, fun i r hr => ?_, fun i j r q hr hq => ?_, h.protected_concat hstepped⟩
  · rw [hopen] at hc
    cases hc
  · rw [hrecoveries] at hr
    rcases Table.get_insert_eq_some.mp hr with ⟨-, rfl⟩ | hr
    · refine ⟨hopen, List.forall_mem_append.mpr ⟨fun x hx hxo => ?_,
        List.forall_mem_singleton.mpr fun _ => ?_⟩⟩
      · rw [hclock]
        exact (h.expired hbefore x hx hxo).trans (SimTime.le_add ..)
      · rw [hstepped.now, hclock]
        exact le_rfl
    · exact absurd hr (h.recoveries_ne hbefore i r)
  · rw [hrecoveries] at hr hq
    rcases Table.get_insert_eq_some.mp hr with ⟨hi, -⟩ | hr
    · rcases Table.get_insert_eq_some.mp hq with ⟨hj, -⟩ | hq
      · rw [hi, hj]
      · exact absurd hq (h.recoveries_ne hbefore j q)
    · exact absurd hr (h.recoveries_ne hbefore i r)

/-- An operation keeps a breaker guarded that is not the success of a request while the breaker is open. -/
theorem Guarded.step (h : Guarded recoveryTimeout b answers)
    (hs : b.step failureThreshold recoveryTimeout op = some (b', a))
    (hclosed : b.Succeeds op → b.state.isOpen = false) :
    Guarded recoveryTimeout b' (answers ++ [a]) := by
  have hstepped := stepped hs
  cases hstepped.effect with
  | keep hrecoveries hopen hclock =>
    exact h.goesOn hstepped hopen hclock fun i r hr => ⟨r, hrecoveries ▸ hr, r.due_mono hclock⟩
  | close hsucceeds hrecoveries hopen hclock =>
    have hbefore := hclosed hsucceeds
    exact h.recovered hstepped (fun _ => hopen) (hrecoveries ▸ h.recoveries_ne hbefore)
      (hclock ▸ h.expired hbefore)
  | opening generation hbefore hopen hrecoveries hclock =>
    exact h.opening hstepped hbefore hopen hrecoveries hclock
  | wait i r r' hr hrecoveries htarget hstate hclock =>
    refine h.goesOn hstepped (hstate ▸ rfl) hclock.ge fun j q hq => ?_
    rw [hrecoveries] at hq
    rcases (Table.get_set_eq_some hr).mp hq with ⟨rfl, rfl⟩ | ⟨-, hq⟩
    · exact ⟨r, hr, by rw [Recovery.due, Recovery.due, htarget, Option.getD_some, Recovery.due]⟩
    · exact ⟨q, hq, by rw [hclock]⟩
  | finish i r hr hdue hrecoveries hstate hclock =>
    refine h.recovered hstepped hstate (fun j q hq => ?_) fun x hx hxo => ?_
    · rw [hrecoveries] at hq
      obtain ⟨hne, hq⟩ := Table.get_erase_eq_some.mp hq
      exact hne (h.unique j i q r hq hr)
    · rw [hclock]
      exact ((h.waits i r hr).2 x hx hxo).trans hdue

/-- In any run in which no request succeeds while the breaker is open: after an opening no request
is admitted until the timeout is over. -/
theorem run_protected {ops : List (Op φ ω)}
    (hclosed : Machine.Along (fun b op => b.Succeeds op → b.state.isOpen = false) (step failureThreshold recoveryTimeout) new ops)
    (hrun : Machine.run (step failureThreshold recoveryTimeout) new ops = some (b, answers)) :
    Protected recoveryTimeout answers := by
  have hstart : Guarded recoveryTimeout (new : CircuitBreaker φ) ([] : List (Answer φ ω)) :=
    ⟨fun _ => nofun, nofun, nofun, List.Pairwise.nil⟩
  exact (hclosed.history (fun b op b' a answers h hC hs => h.step hs hC) hstart hrun).guarded

/-- Two requests are admitted, and the first one fails. Then the second one succeeds, or it does
not, and a third one is sent. -/
def threeCalls (second : Bool) : List (Op Unit Unit) :=
  [.call (), .call (), .poll 0 (.ready (.error .notReady)), .recover 0] ++
    (if second then [.poll 1 (.ready (.ok ()))] else [.advance (.fromDuration 10), .recover 0]) ++ [.call ()]

/-- The breaker admits the third request at the time at which it has been opened. -/
theorem not_protected_threeCalls : ∃ (b : CircuitBreaker Unit) (answers : List (Answer Unit Unit)),
    Machine.run (step 1 10) new (threeCalls true) = some (b, answers) ∧ ¬Protected 10 answers :=
  ⟨_, _, rfl, by decide⟩

theorem run_protected_threeCalls : ∃ (b : CircuitBreaker Unit) (answers : List (Answer Unit Unit)),
    Machine.run (step 1 10) new (threeCalls false) = some (b, answers) ∧ b.state = .halfOpen ∧ Protected 10 answers := by
  have hrun := (rfl : Machine.run (step 1 10) (new : CircuitBreaker Unit) (threeCalls false) = some (_, _))
  exact ⟨_, _, hrun, rfl, run_protected (by simp [threeCalls, Machine.Along, Succeeds]) hrun⟩

end CircuitBreaker

end DesCartes.Tower
