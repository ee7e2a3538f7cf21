import DesCartes.Framework.Table
import DesCartes.Impl.AsyncRuntime

/-!
# What the layers share (`des-tower/src/tower/mod.rs`, `des-core/src/async_runtime.rs`)
-/

namespace DesCartes.Tower

open AsyncRuntime (SimSleep)

/-- `ServiceError`. -/
inductive ServiceError where
  | notReady
  | cancelled
  | overloaded
  | timeout (duration : Nat)
  | internal (message : List Char)
  | http (message : List Char)
  | circuitBreakerInvalidState
  | rateLimiterInvalidState
  | httpResponseBuilder (message : List Char)
deriving DecidableEq

/-- `SimSleep::poll`, of a sleep whose timer another part of the runtime keeps. -/
def pollSleep (sleep : SimSleep) (now : SimTime) : Poll Unit × SimSleep :=
  let target := sleep.targetTime.getD (now + .fromDuration sleep.duration)
  if target ≤ now then (.ready (), { sleep with targetTime := some target, timerScheduled := false })
  else (.pending, { sleep with targetTime := some target, timerScheduled := true })

end DesCartes.Tower
