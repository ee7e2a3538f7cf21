import DesCartes.Impl.Tower.Basic
import Mathlib.Data.Rat.Defs
import Mathlib.Algebra.Order.Ring.Unbundled.Rat

/-!
# The rate limit (`des-tower/src/tower/limit/rate/mod.rs`)

The rate and the tokens, which are `f64`, are rational numbers. The clones of a service share the
tokens and the time of the last refill, and have the same rate and burst, so that calls of several
clones are calls of one. What the inner service answers is given with each operation.
-/

namespace DesCartes.Tower

/-- `Duration::as_secs_f64`. -/
def asSecs (duration : Nat) : ℚ := duration / 1000000000

/-- `DesRateLimit`. -/
structure DesRateLimit where
  rate : ℚ
  burst : Nat
  tokens : ℚ
  lastRefill : SimTime
deriving DecidableEq

/-- `DesRateLimitFuture`, with an inner future of type `φ`. -/
structure RateLimitFuture (φ : Type) where
  inner : Option φ
  immediateError : Option ServiceError
deriving DecidableEq

namespace DesRateLimit

variable {φ : Type}

/-- `DesRateLimit::new`. -/
def new (rate : ℚ) (burst : Nat) : DesRateLimit := ⟨rate, burst, burst, .zero⟩

/-- `DesRateLimit::try_acquire_token`, given what `scheduler::current_time` returns. -/
def tryAcquireToken (l : DesRateLimit) (currentTime : Option SimTime) : DesRateLimit × Bool :=
  let currentTime := currentTime.getD .zero
  let elapsed := currentTime.durationSince l.lastRefill
  let tokensToAdd := asSecs elapsed * l.rate
  let l := { l with tokens := min (l.tokens + tokensToAdd) l.burst, lastRefill := currentTime }
  if 1 ≤ l.tokens then ({ l with tokens := l.tokens - 1 }, true) else (l, false)

/-- `DesRateLimit::call`; the inner service is called only if there is a token. -/
def call (l : DesRateLimit) (currentTime : Option SimTime) (inner : φ) : DesRateLimit × RateLimitFuture φ :=
  match l.tryAcquireToken currentTime with
  | (l, false) => (l, ⟨none, some .overloaded⟩)
  | (l, true) => (l, ⟨some inner, none⟩)

end DesRateLimit

/-- A service in a simulation. -/
structure RateLimited where
  clock : SimTime
  limit : DesRateLimit
deriving DecidableEq

namespace RateLimited

variable {φ : Type}

/-- A new service, in a new simulation. -/
def new (rate : ℚ) (burst : Nat) : RateLimited := ⟨.zero, .new rate burst⟩

/-- An operation. -/
inductive Op (φ : Type) where
  /-- Time passes. -/
  | advance (delay : SimTime)
  | pollReady (inner : Poll (Except ServiceError Unit))
  /-- A call, from the processing of an event or from outside. -/
  | call (inContext : Bool) (inner : φ)

/-- What an operation returns. -/
inductive Output (φ : Type) where
  | done
  | ready (result : Poll (Except ServiceError Unit))
  | called (future : RateLimitFuture φ)
deriving DecidableEq

/-- When an operation was performed, and what it has returned. -/
structure Answer (φ : Type) where
  now : SimTime
  output : Output φ
deriving DecidableEq

/-- `scheduler::current_time`: there is a clock only while an event is processed. -/
def currentTime (s : RateLimited) (inContext : Bool) : Option SimTime := if inContext then some s.clock else none

/-- What an operation does and returns. -/
def perform (s : RateLimited) : Op φ → RateLimited × Output φ
  | .advance delay => ({ s with clock := s.clock + delay }, .done)
  | .pollReady inner => (s, .ready inner)
  | .call inContext inner =>
    let (limit, future) := s.limit.call (s.currentTime inContext) inner
    ({ s with limit }, .called future)

end RateLimited

end DesCartes.Tower
