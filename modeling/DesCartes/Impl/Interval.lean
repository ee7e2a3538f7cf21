import DesCartes.Impl.Tower.Basic

/-!
# Intervals (`des-tokio/src/time.rs`)

An `Interval` and the futures of `tick`. As a future borrows the interval, there is at most one. It
is polled in the context of a task, at the time that the simulation has reached; how it is woken is
that of the sleeps of a task. A panic has no result.
-/

namespace DesCartes

/-- `SimTime::sub_duration`. -/
def SimTime.subDuration (t : SimTime) (duration : Nat) : SimTime := ⟨t.nanos - duration, le_trans (Nat.sub_le _ _) t.le_max⟩

open AsyncRuntime (SimSleep)

/-- `MissedTickBehavior`. -/
inductive MissedTickBehavior where
  | burst
  | delay
  | skip
deriving DecidableEq

/-- `next_timeout`. -/
def MissedTickBehavior.nextTimeout (timeout now : SimTime) (period : Nat) : MissedTickBehavior → Option SimTime
  | .burst => some (timeout + .fromDuration period)
  | .delay => some (now + .fromDuration period)
  | .skip =>
    -- a period that does not fit, and the remainder by zero
    if u64Max < period ∨ period = 0 then none
    else
      let rem := now.durationSince timeout % period
      if u64Max < rem then none else some ((now + .fromDuration period).subDuration rem)

/-- `Interval`. -/
structure Interval where
  next : SimTime
  period : Nat
  missedTickBehavior : MissedTickBehavior
deriving DecidableEq

namespace Interval

/-- `interval_at`. -/
def intervalAt (start : SimTime) (period : Nat) : Option Interval :=
  if 0 < period ∧ period ≤ u64Max then some ⟨start, period, .burst⟩ else none

/-- `set_missed_tick_behavior`. -/
def setMissedTickBehavior (interval : Interval) (behavior : MissedTickBehavior) : Interval :=
  { interval with missedTickBehavior := behavior }

/-- The end of `tick`. -/
def complete (interval : Interval) (timeout now : SimTime) : Option Interval :=
  (if timeout < now then interval.missedTickBehavior.nextTimeout timeout now interval.period
    else some (timeout + .fromDuration interval.period)).map fun next => { interval with next }

/-- The future of `tick`. -/
inductive Tick where
  | created
  | sleeping (timeout : SimTime) (sleep : SimSleep)
deriving DecidableEq

/-- What is observed of a tick that completes: what it returns, the time, and the deadline after it. -/
structure Ticked where
  returned : SimTime
  time : SimTime
  next : SimTime
deriving DecidableEq

/-- An interval at a time, with the future that there is. -/
structure Ticker where
  now : SimTime
  interval : Interval
  tick : Option Tick
deriving DecidableEq

namespace Ticker

/-- The end of the future. -/
def complete (t : Ticker) (timeout : SimTime) : Option (Ticker × Option Ticked) :=
  (t.interval.complete timeout t.now).map fun interval =>
    (⟨t.now, interval, none⟩, some ⟨timeout, t.now, interval.next⟩)

/-- The future awaits the sleep. -/
def await (t : Ticker) (timeout : SimTime) (sleep : SimSleep) : Option (Ticker × Option Ticked) :=
  match Tower.pollSleep sleep t.now with
  | (.pending, sleep) => some ({ t with tick := some (.sleeping timeout sleep) }, none)
  | (.ready _, _) => t.complete timeout

/-- The future of `tick` is polled. -/
def poll (t : Ticker) : Tick → Option (Ticker × Option Ticked)
  | .created =>
    let timeout := t.interval.next
    if t.now < timeout then t.await timeout (.untilTime timeout) else t.complete timeout
  | .sleeping timeout sleep => t.await timeout sleep

/-- What happens to an interval. -/
inductive Op where
  /-- The simulation reaches a time. -/
  | advance (time : SimTime)
  | tick
  | poll
  /-- The future is dropped. -/
  | drop

/-- One of these. -/
def step (t : Ticker) : Op → Option (Ticker × Option Ticked)
  | .advance time => some ({ t with now := max t.now time }, none)
  | .tick => some ({ t with tick := some (t.tick.getD .created) }, none)
  | .poll => t.tick.elim (some (t, none)) t.poll
  | .drop => some ({ t with tick := none }, none)

end Ticker

end Interval

end DesCartes
