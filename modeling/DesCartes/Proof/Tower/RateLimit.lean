import DesCartes.Framework.Machine
import DesCartes.Framework.TokenBucket
import DesCartes.Impl.Tower.RateLimit
import Mathlib.Algebra.Order.Field.Basic

/-!
# How much a rate limit admits

A limit is to admit in each interval no more than its burst and what its rate gives for the
interval. It takes the time from the event that is processed. A call from outside has none, so it
moves `last_refill` back to zero; and the call after it in an event gets the tokens of all the time
before once more.

* `Timely`: a call in an event does not get more than is due since the call before it;
* `Kept.step`: what such calls keep, the invariant `TokenBucket.Metered`;
* `run_bounded_iff`: any run of them.
-/

namespace DesCartes.Tower.RateLimited

variable {φ : Type}

/-- A service, and when it was called last. -/
structure Observed where
  service : RateLimited
  lastCall : SimTime
deriving DecidableEq

namespace Observed

/-- A new service. -/
def new (rate : ℚ) (burst : Nat) : Observed := ⟨.new rate burst, .zero⟩

/-- One operation. -/
def step (o : Observed) (op : Op φ) : Option (Observed × Answer φ) :=
  let (service, output) := o.service.perform op
  some (⟨service, match op with | .call .. => o.service.clock | _ => o.lastCall⟩, ⟨o.service.clock, output⟩)

/-- What is due since the last call. -/
def due (o : Observed) : ℚ := asSecs (o.service.clock.durationSince o.lastCall) * o.service.limit.rate

/-- A call in an event counts from the call before it, or that makes no difference: there is nothing
to count, or the bucket is full by now anyway. -/
def Timely (o : Observed) : Op φ → Prop
  | .call true _ => o.service.limit.lastRefill = o.lastCall ∨ o.service.limit.rate = 0 ∨
      (o.service.limit.burst : ℚ) ≤ o.service.limit.tokens + o.due
  | _ => True

instance (o : Observed) (op : Op φ) : Decidable (o.Timely op) :=
  match op with
  | .call true _ => inferInstanceAs (Decidable (_ ∨ _ ∨ _))
  | .call false _ => isTrue trivial
  | .advance _ => isTrue trivial
  | .pollReady _ => isTrue trivial

end Observed

/-- The time in seconds at which a request was admitted. -/
def Answer.admitted? (a : Answer φ) : Option ℚ :=
  match a.output with
  | .called ⟨some _, _⟩ => some (asSecs a.now.nanos)
  | _ => none

/-- The times at which requests were admitted. -/
def admitted (answers : List (Answer φ)) : List ℚ := answers.filterMap Answer.admitted?

/-- The bucket has never more than the burst and never less than nothing, and in no interval more
requests are admitted than the burst and what the rate gives for the interval. -/
def Bounded (rate : ℚ) (burst : Nat) (o : Observed) (answers : List (Answer φ)) : Prop :=
  (0 ≤ o.service.limit.tokens ∧ o.service.limit.tokens ≤ burst) ∧
    ∀ s t : ℚ, s ≤ t → (TokenBucket.countIn s t (admitted answers) : ℚ) ≤ burst + rate * (t - s)

theorem asSecs_nonneg (n : Nat) : 0 ≤ asSecs n := by
  rw [asSecs]
  positivity

theorem asSecs_le {m n : Nat} (h : m ≤ n) : asSecs m ≤ asSecs n :=
  div_le_div_of_nonneg_right (Nat.cast_le.mpr h) (by norm_num)

theorem asSecs_durationSince {a b : SimTime} (h : b ≤ a) :
    asSecs (a.durationSince b) = asSecs a.nanos - asSecs b.nanos := by
  rw [SimTime.durationSince, asSecs, Nat.cast_sub h, sub_div]
  rfl

/-- What holds of every run whose calls are timely. -/
structure Kept (rate : ℚ) (burst : Nat) (o : Observed) (answers : List (Answer φ)) : Prop where
  hasRate : o.service.limit.rate = rate
  hasBurst : o.service.limit.burst = burst
  before : o.lastCall ≤ o.service.clock
  metered : TokenBucket.Metered (burst : ℚ) rate (admitted answers) (asSecs o.lastCall.nanos) o.service.limit.tokens

variable {rate : ℚ} {burst : Nat} {o o' : Observed} {answers : List (Answer φ)} {a : Answer φ} {op : Op φ}

theorem kept_new (hrate : 0 ≤ rate) : Kept rate burst (.new rate burst) ([] : List (Answer φ)) :=
  ⟨rfl, rfl, le_rfl, TokenBucket.metered_full (Nat.cast_nonneg _) hrate _⟩

/-- What is in the bucket at a call, before a token is taken. -/
def refilled (l : DesRateLimit) (currentTime : SimTime) : ℚ :=
  min (l.tokens + asSecs (currentTime.durationSince l.lastRefill) * l.rate) l.burst

theorem call_eq (l : DesRateLimit) (currentTime : Option SimTime) (inner : φ) : l.call currentTime inner =
    if 1 ≤ refilled l (currentTime.getD .zero) then
      (⟨l.rate, l.burst, refilled l (currentTime.getD .zero) - 1, currentTime.getD .zero⟩, ⟨some inner, none⟩)
    else (⟨l.rate, l.burst, refilled l (currentTime.getD .zero), currentTime.getD .zero⟩,
      ⟨none, some .overloaded⟩) := by
  rw [DesRateLimit.call, DesRateLimit.tryAcquireToken]
  dsimp only
  split <;> rename_i h
  · split at h <;> cases h
    rename_i hlt
    exact (if_neg hlt).symm
  · split at h <;> cases h
    rename_i hle
    exact (if_pos hle).symm

/-- A timely call finds no more in the bucket than is due. -/
theorem Kept.refilled_le (h : Kept rate burst o answers) {inContext : Bool} {inner : φ}
    (ht : o.Timely (.call inContext inner)) :
    refilled o.service.limit ((o.service.currentTime inContext).getD .zero) ≤ o.service.limit.tokens +
      rate * (asSecs o.service.clock.nanos - asSecs o.lastCall.nanos) := by
  have hdue : o.due = rate * (asSecs o.service.clock.nanos - asSecs o.lastCall.nanos) := by
    rw [Observed.due, asSecs_durationSince h.before, h.hasRate, mul_comm]
  have hnonneg : 0 ≤ o.due := by
    rw [Observed.due, h.hasRate]
    exact mul_nonneg (asSecs_nonneg _) h.metered.flows
  rw [← hdue]
  cases inContext with
  | false =>
    -- there is no time that has passed
    refine (min_le_left _ _).trans ?_
    have hzero : SimTime.zero.durationSince o.service.limit.lastRefill = 0 := Nat.zero_sub _
    rw [RateLimited.currentTime, if_neg Bool.false_ne_true, Option.getD_none, hzero, asSecs,
      Nat.cast_zero, zero_div, zero_mul]
    exact add_le_add_right hnonneg _
  | true =>
    rw [RateLimited.currentTime, if_pos rfl, Option.getD_some]
    rcases ht with hlast | hzero | hfull
    · refine (min_le_left _ _).trans ?_
      rw [hlast, Observed.due]
    · refine (min_le_left _ _).trans ?_
      rw [Observed.due, hzero, mul_zero, mul_zero]
    · exact (min_le_right _ _).trans hfull

theorem Kept.refilled_nonneg (h : Kept rate burst o answers) (currentTime : SimTime) :
    0 ≤ refilled o.service.limit currentTime := by
  refine le_min (add_nonneg h.metered.nonneg (mul_nonneg (asSecs_nonneg _) ?_)) (Nat.cast_nonneg _)
  rw [h.hasRate]
  exact h.metered.flows

theorem admitted_concat (answers : List (Answer φ)) (a : Answer φ) :
    admitted (answers ++ [a]) = admitted answers ++ a.admitted?.toList := by
  rw [admitted, List.filterMap_append]
  cases h : a.admitted? <;> simp [h, admitted]

/-- What does not call the service. -/
theorem Kept.idle (h : Kept rate burst o answers) {o' : Observed} {a : Answer φ}
    (hlimit : o'.service.limit = o.service.limit) (hlast : o'.lastCall = o.lastCall)
    (hclock : o.service.clock ≤ o'.service.clock) (ha : a.admitted? = none) :
    Kept rate burst o' (answers ++ [a]) where
  hasRate := hlimit ▸ h.hasRate
  hasBurst := hlimit ▸ h.hasBurst
  before := hlast ▸ h.before.trans hclock
  metered := by
    rw [admitted_concat, ha, hlast, hlimit, Option.toList_none, List.append_nil]
    exact h.metered

theorem Kept.call (h : Kept rate burst o answers) {inContext : Bool} {inner : φ}
    (ht : o.Timely (.call inContext inner)) :
    Kept rate burst
      ⟨⟨o.service.clock, (o.service.limit.call (o.service.currentTime inContext) inner).1⟩, o.service.clock⟩
      (answers ++ [⟨o.service.clock,
        .called (o.service.limit.call (o.service.currentTime inContext) inner).2⟩]) := by
  have hnow : asSecs o.lastCall.nanos ≤ asSecs o.service.clock.nanos := asSecs_le (SimTime.le_def.mp h.before)
  have hburst : refilled o.service.limit ((o.service.currentTime inContext).getD .zero) ≤ burst :=
    (min_le_right _ _).trans_eq (by rw [h.hasBurst])
  have hmetered := h.metered.refill hnow (h.refilled_nonneg _) hburst (h.refilled_le ht)
  rw [call_eq]
  split
  · rename_i hle
    refine ⟨h.hasRate, h.hasBurst, le_rfl, ?_⟩
    rw [admitted_concat]
    exact hmetered.take hle
  · refine ⟨h.hasRate, h.hasBurst, le_rfl, ?_⟩
    rw [admitted_concat, show Answer.admitted? _ = none from rfl, Option.toList_none, List.append_nil]
    exact hmetered

theorem Kept.step (h : Kept rate burst o answers) (ht : o.Timely op) (hstep : o.step op = some (o', a)) :
    Kept rate burst o' (answers ++ [a]) := by
  cases op with
  | advance delay =>
    cases hstep
    exact h.idle rfl rfl (SimTime.le_add _ _) rfl
  | pollReady inner =>
    cases hstep
    exact h.idle rfl rfl le_rfl rfl
  | call inContext inner =>
    cases hstep
    exact h.call ht

variable {ops : List (Op φ)}

/-- A rate that is negative gives, in an interval that is long enough, less than nothing. -/
theorem nonneg_of_bounded (hbounded : Bounded rate burst o answers) : 0 ≤ rate := by
  by_contra hneg
  have hrate : 0 < -rate := neg_pos.mpr (not_le.mp hneg)
  have hlong : 0 ≤ ((burst : ℚ) + 1) / -rate := div_nonneg (by positivity) hrate.le
  have hcount := hbounded.2 0 (((burst : ℚ) + 1) / -rate) hlong
  have hflow : rate * (((burst : ℚ) + 1) / -rate - 0) = -(burst + 1) := by
    have hne : rate ≠ 0 := neg_ne_zero.mp hrate.ne'
    rw [sub_zero, div_neg, mul_neg, mul_div_cancel₀ _ hne]
  have hpos : (0 : ℚ) ≤ (TokenBucket.countIn 0 (((burst : ℚ) + 1) / -rate) (admitted answers) : ℚ) :=
    Nat.cast_nonneg _
  linarith

/-- In every run whose calls are timely a limit is bounded, if its rate is not negative. -/
theorem run_bounded_iff (htimely : Machine.Along Observed.Timely Observed.step (.new rate burst) ops)
    (hrun : Machine.run Observed.step (.new rate burst) ops = some (o, answers)) : Bounded rate burst o answers ↔ 0 ≤ rate := by
  refine ⟨nonneg_of_bounded, fun hrate => ?_⟩
  have hkept : Kept rate burst o ([] ++ answers) :=
    htimely.history (fun o op o' a answers h ht hstep => h.step ht hstep) (kept_new hrate) hrun
  exact ⟨⟨hkept.metered.nonneg, hkept.metered.le_burst⟩, hkept.metered.bounded⟩

/-- Ten seconds pass, and a request is admitted. A call from outside of an event is not, and then
one in the event is. -/
def calledOutside : List (Op Unit) := [.advance (.saturate 10000000000), .call true (), .call false (), .call true ()]

/-- A request is admitted at once, one is not, and one is admitted a second later. -/
def calledInside : List (Op Unit) := [.call false (), .call true (), .advance (.saturate 1000000000), .call true ()]

theorem run_bounded_iff_inside : ∃ o answers, Machine.run Observed.step (.new 1 1) calledInside = some (o, answers) ∧
    (Bounded 1 1 o answers ↔ (0 : ℚ) ≤ 1) := by
  obtain ⟨o, answers, hrun⟩ : ∃ o answers, Machine.run Observed.step (.new 1 1) calledInside = some
    (o, answers) :=
    Machine.exists_run (fun _ _ => ⟨_, _, rfl⟩) _ _
  exact ⟨o, answers, hrun, run_bounded_iff (by decide +kernel) hrun⟩

theorem not_bounded_outside : ∃ o answers, Machine.run Observed.step (.new 1 1) calledOutside = some (o, answers) ∧
    ¬Bounded 1 1 o answers := by
  have hrun : Machine.run Observed.step (.new 1 1) calledOutside = some (_, _) := rfl
  refine ⟨_, _, hrun, fun hbounded => ?_⟩
  have hcount := hbounded.2 10 10 le_rfl
  revert hcount
  decide +kernel

end DesCartes.Tower.RateLimited
