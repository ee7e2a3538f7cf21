import DesCartes.Framework.Machine
import DesCartes.Impl.Interval
import Mathlib.Order.Bounds.Defs

/-!
# The ticks of an interval

`step_spec`: an operation completes a tick, which returns the deadline that was set and sets the
next one (`deadlineAfter`), or leaves the interval alone. So each tick returns the deadline that the
one before it has set (`Chained`), whatever was polled or dropped in between, and no tick completes
before that (`run_ticks`). `run_interval` says what the deadlines are.
-/

namespace DesCartes.Interval

variable {interval : Interval} {timeout now : SimTime}

/-- The period is one that `interval_at` accepts. -/
def Valid (interval : Interval) : Prop := 0 < interval.period ∧ interval.period ≤ u64Max

/-- The deadline after one that is met at a time. -/
def deadlineAfter (interval : Interval) (timeout now : SimTime) : SimTime :=
  if timeout < now then
    match interval.missedTickBehavior with
    | .burst => timeout + .fromDuration interval.period
    | .delay => now + .fromDuration interval.period
    | .skip => (now + .fromDuration interval.period).subDuration (now.durationSince timeout % interval.period)
  else timeout + .fromDuration interval.period

theorem valid_of_intervalAt {start : SimTime} {period : Nat} (h : intervalAt start period = some interval) :
    interval.Valid ∧ interval.next = start ∧ interval.period = period := by
  rw [intervalAt] at h
  split at h
  · rename_i hp
    cases h
    exact ⟨hp, rfl, rfl⟩
  · cases h

theorem complete_eq (h : interval.Valid) :
    interval.complete timeout now = some { interval with next := interval.deadlineAfter timeout now } := by
  rw [complete, deadlineAfter]
  split
  · cases hb : interval.missedTickBehavior with
    | burst => rfl
    | delay => rfl
    | skip =>
      have hrem := Nat.mod_lt (now.durationSince timeout) h.1
      have hmax := h.2
      rw [MissedTickBehavior.nextTimeout, if_neg (by omega), if_neg (by omega)]
      rfl
  · rfl

/-! ## The deadlines -/

/-- No time that the tick computes leaves the range of times. -/
def Fits (interval : Interval) (x : Ticked) : Prop :=
  (match interval.missedTickBehavior with
    | .burst => x.returned
    | _ => x.time).nanos + interval.period ≤ u64Max

instance (interval : Interval) (x : Ticked) : Decidable (interval.Fits x) := inferInstanceAs (Decidable (_ ≤ _))

theorem nanos_add_period (h : interval.Valid) {t : SimTime} (hfits : t.nanos + interval.period ≤ u64Max) :
    (t + .fromDuration interval.period).nanos = t.nanos + interval.period := by
  have := h.2
  rw [SimTime.nanos_add, SimTime.fromDuration, SimTime.nanos_saturate]
  omega

theorem deadlineAfter_burst (h : interval.Valid) (hb : interval.missedTickBehavior = .burst)
    (hfits : timeout.nanos + interval.period ≤ u64Max) :
    (interval.deadlineAfter timeout now).nanos = timeout.nanos + interval.period := by
  rw [deadlineAfter, hb, ite_self]
  exact nanos_add_period h hfits

theorem deadlineAfter_delay (h : interval.Valid) (hb : interval.missedTickBehavior = .delay)
    (hle : timeout ≤ now) (hfits : now.nanos + interval.period ≤ u64Max) :
    (interval.deadlineAfter timeout now).nanos = now.nanos + interval.period := by
  rw [deadlineAfter, hb]
  split
  · exact nanos_add_period h hfits
  · rename_i hlt
    rw [le_antisymm hle (not_lt.mp hlt)]
    exact nanos_add_period h hfits

/-- The first time after now that is a number of periods after the deadline. -/
theorem deadlineAfter_skip (h : interval.Valid) (hb : interval.missedTickBehavior = .skip)
    (hle : timeout ≤ now) (hfits : now.nanos + interval.period ≤ u64Max) :
    (interval.deadlineAfter timeout now).nanos =
      timeout.nanos + ((now.nanos - timeout.nanos) / interval.period + 1) * interval.period := by
  have hle' : timeout.nanos ≤ now.nanos := hle
  have hdiv := Nat.div_add_mod' (now.nanos - timeout.nanos) interval.period
  rw [deadlineAfter, hb, Nat.succ_mul]
  split
  · have hmod := Nat.mod_lt (now.nanos - timeout.nanos) h.1
    rw [SimTime.subDuration]
    simp only
    rw [nanos_add_period h hfits, SimTime.durationSince]
    omega
  · rename_i hlt
    have heq : now.nanos - timeout.nanos = 0 := Nat.sub_eq_zero_of_le (not_lt.mp hlt)
    rw [heq, Nat.zero_div, Nat.zero_mul, Nat.zero_add, nanos_add_period h (by omega)]

/-! ## Steps -/

namespace Ticker

/-- A future that sleeps does so until the deadline that is set. -/
def Awaiting (t : Ticker) : Prop :=
  ∀ timeout sleep, t.tick = some (.sleeping timeout sleep) → timeout = t.interval.next ∧ sleep.targetTime = some timeout

/-- What an operation does: nothing to the interval, or the tick is completed, not before its deadline. -/
inductive Steps (t : Ticker) : Ticker → Option Ticked → Prop
  | waits {u : Ticker} (interval : u.interval = t.interval) (awaiting : u.Awaiting) : Steps t u none
  | ticks (due : t.interval.next ≤ t.now) : Steps t
      ⟨t.now, { t.interval with next := t.interval.deadlineAfter t.interval.next t.now }, none⟩
      (some ⟨t.interval.next, t.now, t.interval.deadlineAfter t.interval.next t.now⟩)

theorem complete_steps {t : Ticker} (h : t.interval.Valid) (hdue : t.interval.next ≤ t.now) :
    ∃ u o, t.complete t.interval.next = some (u, o) ∧ Steps t u o := by
  rw [complete, complete_eq h]
  exact ⟨_, _, rfl, .ticks hdue⟩

theorem await_steps {t : Ticker} (h : t.interval.Valid) {sleep : AsyncRuntime.SimSleep}
    (hsleep : sleep.targetTime = some t.interval.next) :
    ∃ u o, t.await t.interval.next sleep = some (u, o) ∧ Steps t u o := by
  rw [await, Tower.pollSleep, hsleep, Option.getD_some]
  by_cases hdue : t.interval.next ≤ t.now
  · simp only [if_pos hdue]
    exact complete_steps h hdue
  · simp only [if_neg hdue]
    refine ⟨_, _, rfl, .waits rfl ?_⟩
    rintro _ _ ⟨⟩
    exact ⟨rfl, rfl⟩

theorem step_spec {t : Ticker} (h : t.interval.Valid) (ha : t.Awaiting) (op : Op) :
    ∃ u o, t.step op = some (u, o) ∧ Steps t u o := by
  cases op with
  | advance time => exact ⟨_, _, rfl, .waits rfl ha⟩
  | tick =>
    refine ⟨_, _, rfl, .waits rfl fun timeout sleep hs => ?_⟩
    cases htick : t.tick with
    | none =>
      rw [htick] at hs
      cases hs
    | some tick =>
      rw [htick] at hs
      exact ha timeout sleep (htick.trans hs)
  | drop =>
    refine ⟨_, _, rfl, .waits rfl ?_⟩
    rintro _ _ ⟨⟩
  | poll =>
    rw [step]
    cases htick : t.tick with
    | none => exact ⟨_, _, rfl, .waits rfl ha⟩
    | some tick =>
      rw [Option.elim_some]
      cases tick with
      | created =>
        rw [poll]
        split
        · exact await_steps h rfl
        · rename_i hdue
          exact complete_steps h (not_lt.mp hdue)
      | sleeping timeout sleep =>
        obtain ⟨rfl, hsleep⟩ := ha timeout sleep htick
        exact await_steps h hsleep

end Ticker

/-! ## Runs -/

/-- Each tick returns the deadline that was set before it; the last one that is set is `next`. -/
def Chained : SimTime → List Ticked → SimTime → Prop
  | start, [], next => next = start
  | start, x :: ticks, next => x.returned = start ∧ Chained x.next ticks next

theorem Chained.snoc {start next : SimTime} {ticks : List Ticked} (h : Chained start ticks next) {x : Ticked}
    (hx : x.returned = next) : Chained start (ticks ++ [x]) x.next := by
  induction ticks generalizing start with
  | nil => exact ⟨hx.trans h, rfl⟩
  | cons y ticks ih => exact ⟨h.1, ih h.2⟩

/-- The ticks that have completed. -/
def ticked (os : List (Option Ticked)) : List Ticked := os.filterMap id

theorem ticked_snoc (os : List (Option Ticked)) (o : Option Ticked) :
    ticked (os ++ [o]) = ticked os ++ o.toList := by
  rw [ticked, List.filterMap_append, ← ticked]
  cases o with
  | none => rfl
  | some x => rfl

/-- What holds of a run from the interval. -/
structure Kept (interval : Interval) (t : Ticker) (os : List (Option Ticked)) : Prop where
  kept : t.interval = { interval with next := t.interval.next }
  awaiting : t.Awaiting
  chained : Chained interval.next (ticked os) t.interval.next
  ticked : ∀ x ∈ ticked os, x.returned ≤ x.time ∧ x.next = interval.deadlineAfter x.returned x.time

theorem Kept.valid {t : Ticker} {os : List (Option Ticked)} (h : Kept interval t os)
    (hv : interval.Valid) : t.interval.Valid := by
  rw [h.kept]
  exact hv

theorem Kept.step {t u : Ticker} {os : List (Option Ticked)} {o : Option Ticked} (h : Kept interval t os)
    (hs : t.Steps u o) : Kept interval u (os ++ [o]) := by
  have hafter : ∀ timeout now, t.interval.deadlineAfter timeout now = interval.deadlineAfter timeout now := by
    intro timeout now
    rw [h.kept]
    rfl
  cases hs with
  | waits hinterval hawaiting =>
    refine ⟨?_, hawaiting, ?_, ?_⟩
    · rw [hinterval]
      exact h.kept
    · rw [ticked_snoc, Option.toList_none, List.append_nil, hinterval]
      exact h.chained
    · rw [ticked_snoc, Option.toList_none, List.append_nil]
      exact h.ticked
  | ticks hdue =>
    refine ⟨?_, ?_, ?_, ?_⟩
    · rw [h.kept]
    · rintro _ _ ⟨⟩
    · rw [ticked_snoc]
      exact h.chained.snoc rfl
    · rw [ticked_snoc]
      exact List.forall_mem_append.mpr ⟨h.ticked, List.forall_mem_singleton.mpr ⟨hdue, hafter _ _⟩⟩

/-- No operation panics, and what it leaves is kept. -/
theorem run_ticks (hv : interval.Valid) (now : SimTime) (ops : List Ticker.Op) :
    ∃ t os, Machine.run Ticker.step ⟨now, interval, none⟩ ops = some (t, os) ∧ Kept interval t os := by
  have hzero : Kept interval ⟨now, interval, none⟩ [] := by
    refine ⟨rfl, ?_, rfl, fun x hx => absurd hx List.not_mem_nil⟩
    rintro _ _ ⟨⟩
  have hruns : ∀ (t : Ticker) (op : Ticker.Op) (l : List Ticker.Op), t.interval.Valid ∧ t.Awaiting →
      ∃ u o, t.step op = some (u, o) ∧ u.interval.Valid ∧ u.Awaiting := by
    intro t op l ht
    obtain ⟨u, o, hu, hs⟩ := Ticker.step_spec ht.1 ht.2 op
    refine ⟨u, o, hu, ?_⟩
    cases hs with
    | waits hinterval hawaiting => exact ⟨hinterval ▸ ht.1, hawaiting⟩
    | ticks hdue =>
      refine ⟨ht.1, ?_⟩
      rintro _ _ ⟨⟩
  obtain ⟨t, os, h⟩ := Machine.run_isSome (P := fun (t : Ticker) _ => t.interval.Valid ∧
    t.Awaiting) hruns ⟨hv, hzero.awaiting⟩
  refine ⟨t, os, h, ?_⟩
  refine Machine.run_history (fun t op u o os ht hu => ?_) hzero h
  obtain ⟨u', o', hu', hs⟩ := Ticker.step_spec (ht.valid hv) ht.awaiting op
  cases hu.symm.trans hu'
  exact ht.step hs

/-! ## The schedule -/

variable {start next : SimTime} {ticks : List Ticked}

theorem Chained.consecutive (h : Chained start ticks next) {k : Nat} {x y : Ticked} (hx : ticks[k]? = some x)
    (hy : ticks[k + 1]? = some y) : y.returned = x.next := by
  induction ticks generalizing start k with
  | nil => cases hx
  | cons z ticks ih =>
    rw [List.getElem?_cons_succ] at hy
    cases k with
    | succ k =>
      rw [List.getElem?_cons_succ] at hx
      exact ih h.2 hx hy
    | zero =>
      cases hx
      cases ticks with
      | nil => cases hy
      | cons w ticks =>
        cases hy
        exact h.2.1

/-- Deadlines each of which is a period after the one before it. -/
theorem Chained.every {period : Nat} (h : Chained start ticks next)
    (hstep : ∀ x ∈ ticks, x.next.nanos = x.returned.nanos + period) {k : Nat} {x : Ticked}
    (hx : ticks[k]? = some x) :
    x.returned.nanos = start.nanos + k * period := by
  induction ticks generalizing start k with
  | nil => cases hx
  | cons y ticks ih =>
    obtain ⟨hy, hsteps⟩ := List.forall_mem_cons.mp hstep
    cases k with
    | zero =>
      cases hx
      rw [h.1, Nat.zero_mul, Nat.add_zero]
    | succ k =>
      rw [List.getElem?_cons_succ] at hx
      rw [ih h.2 hsteps hx, hy, h.1, Nat.succ_mul]
      omega

/-- Deadlines each of which is one or more periods after the one before it. -/
theorem Chained.some {period base m : Nat} (h : Chained start ticks next)
    (hstart : start.nanos = base + m * period)
    (hstep : ∀ x ∈ ticks, ∃ j, x.next.nanos = x.returned.nanos + (j + 1) * period) :
    ∃ ms : List Nat, ms.Pairwise (· < ·) ∧ (∀ m' ∈ ms, m ≤ m') ∧
      ticks.map (fun x => x.returned.nanos) = ms.map fun m => base + m * period := by
  induction ticks generalizing start m with
  | nil => exact ⟨[], .nil, nofun, rfl⟩
  | cons x ticks ih =>
    obtain ⟨⟨j, hj⟩, hsteps⟩ := List.forall_mem_cons.mp hstep
    have hnext : x.next.nanos = base + (m + (j + 1)) * period := by
      rw [hj, h.1, hstart, Nat.add_mul m, Nat.add_assoc]
    obtain ⟨ms, hms, hle, hmap⟩ := ih h.2 hnext hsteps
    refine ⟨m :: ms, List.pairwise_cons.mpr ⟨fun m' hm' => ?_, hms⟩,
      List.forall_mem_cons.mpr ⟨le_rfl, fun m' hm' => ?_⟩, ?_⟩
    · have := hle m' hm'
      omega
    · have := hle m' hm'
      omega
    · rw [List.map_cons, List.map_cons, hmap, h.1, hstart]

/-- The first time of a schedule that is after now. -/
theorem isLeast_after {base period timeout now m : Nat} (hp : 0 < period)
    (ht : timeout = base + m * period) (hle : timeout ≤ now) :
    IsLeast {n | now < n ∧ ∃ m, n = base + m * period}
      (timeout + ((now - timeout) / period + 1) * period) := by
  have hdiv := Nat.div_add_mod' (now - timeout) period
  have hmod := Nat.mod_lt (now - timeout) hp
  refine ⟨⟨?_, m + ((now - timeout) / period + 1), ?_⟩, ?_⟩
  · rw [Nat.succ_mul]
    omega
  · rw [Nat.add_mul m, ← Nat.add_assoc, ← ht]
  · rintro _ ⟨hn, m', rfl⟩
    have hm : m + (now - timeout) / period < m' := by
      by_contra hm
      have hmul := Nat.mul_le_mul_right period (not_lt.mp hm)
      rw [Nat.add_mul] at hmul
      omega
    have hmul := Nat.mul_le_mul_right period hm
    rw [Nat.succ_mul, Nat.add_mul] at hmul
    rw [Nat.succ_mul]
    omega

/-- What the completed ticks of an interval return, by its behavior where one is missed. -/
def Scheduled (start : SimTime) (period : Nat) (ticks : List Ticked) : MissedTickBehavior → Prop
  | .burst => ∀ (k : Nat) (x : Ticked), ticks[k]? = some x → x.returned.nanos = start.nanos + k * period
  | .skip =>
    (∃ ms : List Nat, ms.Pairwise (· < ·) ∧ ticks.map (fun x => x.returned.nanos) = ms.map fun m => start.nanos + m * period) ∧
      ∀ x ∈ ticks, x.returned < x.time →
        IsLeast {n | x.time.nanos < n ∧ ∃ m, n = start.nanos + m * period} x.next.nanos
  | .delay => ∀ x ∈ ticks, x.returned.nanos + period ≤ x.next.nanos

theorem Kept.scheduled {t : Ticker} {os : List (Option Ticked)} (h : Kept interval t os) (hv : interval.Valid)
    (hfits : ∀ x ∈ Interval.ticked os, interval.Fits x) :
    Scheduled interval.next interval.period (Interval.ticked os) interval.missedTickBehavior := by
  have hnext : ∀ x ∈ Interval.ticked os, x.returned.nanos ≤ x.time.nanos ∧
      x.next = interval.deadlineAfter x.returned x.time :=
    h.ticked
  cases hb : interval.missedTickBehavior with
  | burst =>
    intro k x hx
    refine h.chained.every (fun x hx => ?_) hx
    have hfit := hfits x hx
    rw [Fits, hb] at hfit
    rw [(hnext x hx).2]
    exact deadlineAfter_burst hv hb hfit
  | delay =>
    intro x hx
    have hfit := hfits x hx
    rw [Fits, hb] at hfit
    rw [(hnext x hx).2, deadlineAfter_delay hv hb (hnext x hx).1 hfit]
    exact Nat.add_le_add_right (hnext x hx).1 _
  | skip =>
    have hskip : ∀ x ∈ Interval.ticked os, x.next.nanos =
        x.returned.nanos + ((x.time.nanos - x.returned.nanos) / interval.period + 1) * interval.period := by
      intro x hx
      have hfit := hfits x hx
      rw [Fits, hb] at hfit
      rw [(hnext x hx).2]
      exact deadlineAfter_skip hv hb (hnext x hx).1 hfit
    have hzero : interval.next.nanos = interval.next.nanos + 0 * interval.period := by
      rw [Nat.zero_mul, Nat.add_zero]
    obtain ⟨ms, hms, -, hmap⟩ := h.chained.some hzero fun x hx => ⟨_, hskip x hx⟩
    refine ⟨⟨ms, hms, hmap⟩, fun x hx _ => ?_⟩
    obtain ⟨m, -, hm⟩ := List.mem_map.mp (hmap ▸ List.mem_map_of_mem hx)
    rw [hskip x hx]
    exact isLeast_after hv.1 hm.symm (hnext x hx).1

/-- Whatever the times at which the futures of `tick` are polled or dropped: nothing panics, no tick
completes before the deadline that it returns, each returns the deadline that the one before it has
set, and where no time leaves its range the deadlines are those of the behavior. -/
theorem run_interval {start : SimTime} {period : Nat} {interval : Interval} (h : intervalAt start period = some interval)
    (behavior : MissedTickBehavior) (now : SimTime) (ops : List Ticker.Op) :
    ∃ t os, Machine.run Ticker.step ⟨now, interval.setMissedTickBehavior behavior, none⟩ ops = some (t, os) ∧
      (∀ x ∈ ticked os, x.returned ≤ x.time) ∧
      (∀ (k : Nat) (x y : Ticked), (ticked os)[k]? = some x → (ticked os)[k + 1]? = some y → y.returned = x.next) ∧
      ((∀ x ∈ ticked os, (interval.setMissedTickBehavior behavior).Fits x) → Scheduled start period (ticked os) behavior) := by
  obtain ⟨hv, rfl, rfl⟩ := valid_of_intervalAt h
  have hv : (interval.setMissedTickBehavior behavior).Valid := hv
  obtain ⟨t, os, hrun, hkept⟩ := run_ticks hv now ops
  exact ⟨t, os, hrun, fun x hx => (hkept.ticked x hx).1, fun k x y => hkept.chained.consecutive,
    fun hfits => hkept.scheduled hv hfits⟩

/-- A tick that is dropped while it sleeps, one that is two and a half periods late, and the next one. -/
def lateTicks : List Ticker.Op :=
  [.tick, .poll, .advance (.saturate 8), .drop, .advance (.saturate 20), .tick, .poll, .tick, .poll, .advance (.saturate 22), .poll]

theorem run_interval_late : ∃ t os, Machine.run Ticker.step ⟨.zero, ⟨.saturate 10, 4, .skip⟩, none⟩ lateTicks = some (t, os) ∧
    (ticked os).map (fun x => x.returned.nanos) = [10, 22] ∧ Scheduled (.saturate 10) 4 (ticked os) .skip := by
  have hat : intervalAt (.saturate 10) 4 = some ⟨.saturate 10, 4, .burst⟩ := rfl
  have hrun : Machine.run Ticker.step ⟨.zero, ⟨.saturate 10, 4, .skip⟩, none⟩ lateTicks = some (_, _) := rfl
  obtain ⟨t, os, hrun', -, -, hscheduled⟩ := run_interval hat .skip .zero lateTicks
  cases hrun'.symm.trans hrun
  exact ⟨_, _, hrun, rfl, hscheduled (by decide)⟩

end DesCartes.Interval
