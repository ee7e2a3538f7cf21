import DesCartes.Impl.Service.Request

/-!
# Retry policies (`des-components/src/retry_policy.rs`)

A delay is a number of nanoseconds. What the policies compute with an `f64` or with a random number
generator is a parameter. A policy panics where a counter overflows.
-/

namespace DesCartes.Service

/-- What the policies compute with an `f64`. -/
class RetryFloat (α : Type) where
  /-- `(millis as f64 * multiplier.powi(exponent)) as u64`. -/
  scale : Nat → α → Nat → Nat
  /-- `(elapsed.as_secs_f64() * refill_rate) as u32`. -/
  tokens : Nat → α → Nat
  /-- `success_rate() < min_success_rate`. -/
  rateBelow : List Bool → α → Bool

/-- What a policy draws: `(millis as f64 * rng.gen_range(0.75..=1.25)) as u64`. -/
class JitterRng (γ : Type) where
  jitter : γ → Nat → Nat × γ

/-- `RetryPolicy`: `should_retry` gives a delay, if there is to be a retry, and the policy afterwards. -/
class RetryPolicy (P : Type) where
  shouldRetry : P → RequestAttempt → Option Response → Option (Option Nat × P)
  reset : P → P
  maxAttempts : P → Nat

/-- `is_retryable`: an error response, or no response. -/
def isRetryable : Option Response → Bool
  | some response => !response.isSuccess
  | none => true

variable {α γ : Type}

/-! ## Exponential backoff -/

/-- `ExponentialBackoffPolicy`. -/
structure ExponentialBackoffPolicy (α γ : Type) where
  maxAttempts : Nat
  currentAttempt : Nat
  baseDelay : Nat
  multiplier : α
  maxDelay : Nat
  jitter : Bool
  rng : γ

namespace ExponentialBackoffPolicy

/-- `with_seed`, given the `f64` of `2.0` and the `StdRng` of the seed. -/
def withSeed (maxAttempts baseDelay : Nat) (two : α) (rng : γ) : ExponentialBackoffPolicy α γ :=
  ⟨maxAttempts, 0, baseDelay, two, 60000 * nanosPerMilli, false, rng⟩

variable [RetryFloat α] [JitterRng γ]

/-- `calculate_delay`. -/
def calculateDelay (p : ExponentialBackoffPolicy α γ) : Nat × ExponentialBackoffPolicy α γ :=
  let delayMs := RetryFloat.scale (p.baseDelay / nanosPerMilli) p.multiplier (p.currentAttempt - 1)
  let delay := min (delayMs * nanosPerMilli) p.maxDelay
  if p.jitter then
    let (jittered, rng) := JitterRng.jitter p.rng (delay / nanosPerMilli)
    (jittered * nanosPerMilli, { p with rng })
  else (delay, p)

instance : RetryPolicy (ExponentialBackoffPolicy α γ) where
  shouldRetry p _ response :=
    let p := { p with currentAttempt := p.currentAttempt + 1 }
    if p.maxAttempts < p.currentAttempt || !isRetryable response then some (none, p)
    else
      let (delay, p) := p.calculateDelay
      some (some delay, p)
  reset p := { p with currentAttempt := 0 }
  maxAttempts := maxAttempts

end ExponentialBackoffPolicy

/-! ## Token bucket -/

/-- `TokenBucketRetryPolicy`. -/
structure TokenBucketRetryPolicy (α : Type) where
  maxAttempts : Nat
  currentAttempt : Nat
  maxTokens : Nat
  currentTokens : Nat
  refillRate : α
  lastRefill : Option SimTime
  baseDelay : Nat

namespace TokenBucketRetryPolicy

/-- `new`. -/
def new (maxAttempts maxTokens : Nat) (refillRate : α) : TokenBucketRetryPolicy α :=
  ⟨maxAttempts, 0, maxTokens, maxTokens, refillRate, none, 100 * nanosPerMilli⟩

/-- `with_base_delay`. -/
def withBaseDelay (p : TokenBucketRetryPolicy α) (baseDelay : Nat) : TokenBucketRetryPolicy α := { p with baseDelay }

variable [RetryFloat α]

/-- `refill_tokens`; none where the sum of the tokens overflows a `u32`. -/
def refillTokens (p : TokenBucketRetryPolicy α) (currentTime : SimTime) : Option (TokenBucketRetryPolicy α) :=
  match p.lastRefill with
  | none => some { p with lastRefill := some currentTime }
  | some lastRefill =>
    let tokensToAdd := RetryFloat.tokens (currentTime.durationSince lastRefill) p.refillRate
    if 0 < tokensToAdd then
      if p.currentTokens + tokensToAdd < 2 ^ 32 then
        some { p with currentTokens := min (p.currentTokens + tokensToAdd) p.maxTokens, lastRefill := some currentTime }
      else none
    else some p

/-- `try_consume_token`. -/
def tryConsumeToken (p : TokenBucketRetryPolicy α) (currentTime : SimTime) : Option (Bool × TokenBucketRetryPolicy α) :=
  (p.refillTokens currentTime).map fun p =>
    if 0 < p.currentTokens then (true, { p with currentTokens := p.currentTokens - 1 }) else (false, p)

instance : RetryPolicy (TokenBucketRetryPolicy α) where
  shouldRetry p attempt response :=
    let p := { p with currentAttempt := p.currentAttempt + 1 }
    if p.maxAttempts < p.currentAttempt then some (none, p)
    else if !isRetryable response then some (none, p)
    else (p.tryConsumeToken attempt.startedAt).map fun (token, p) => (some (if token then 0 else p.baseDelay), p)
  -- the tokens are kept
  reset p := { p with currentAttempt := 0 }
  maxAttempts := maxAttempts

end TokenBucketRetryPolicy

/-! ## Success rate -/

/-- `SuccessBasedRetryPolicy`. -/
structure SuccessBasedRetryPolicy (α : Type) where
  maxAttempts : Nat
  currentAttempt : Nat
  baseDelay : Nat
  windowSize : Nat
  recentOutcomes : List Bool
  minSuccessRate : α
  failureMultiplier : α

namespace SuccessBasedRetryPolicy

variable [RetryFloat α]

/-- `calculate_delay`. -/
def calculateDelay (p : SuccessBasedRetryPolicy α) : Nat :=
  if RetryFloat.rateBelow p.recentOutcomes p.minSuccessRate then
    -- the product with the multiplier itself
    RetryFloat.scale (p.baseDelay / nanosPerMilli) p.failureMultiplier 1 * nanosPerMilli
  else p.baseDelay

instance : RetryPolicy (SuccessBasedRetryPolicy α) where
  shouldRetry p _ response :=
    let p := { p with currentAttempt := p.currentAttempt + 1 }
    if p.maxAttempts < p.currentAttempt then some (none, p)
    else if !isRetryable response then some (none, p)
    else some (some p.calculateDelay, p)
  reset p := { p with currentAttempt := 0 }
  maxAttempts := maxAttempts

end SuccessBasedRetryPolicy

/-! ## No retries, and a fixed delay -/

/-- `NoRetryPolicy`. -/
structure NoRetryPolicy where

instance : RetryPolicy NoRetryPolicy where
  shouldRetry p _ _ := some (none, p)
  reset p := p
  maxAttempts _ := 1

/-- `FixedRetryPolicy`. -/
structure FixedRetryPolicy where
  maxAttempts : Nat
  currentAttempt : Nat
  retryDelay : Nat

namespace FixedRetryPolicy

/-- `new`. -/
def new (maxAttempts retryDelay : Nat) : FixedRetryPolicy := ⟨maxAttempts, 0, retryDelay⟩

instance : RetryPolicy FixedRetryPolicy where
  shouldRetry p _ response :=
    let p := { p with currentAttempt := p.currentAttempt + 1 }
    if p.maxAttempts < p.currentAttempt || !isRetryable response then some (none, p) else some (some p.retryDelay, p)
  reset p := { p with currentAttempt := 0 }
  maxAttempts := maxAttempts

end FixedRetryPolicy

end DesCartes.Service
