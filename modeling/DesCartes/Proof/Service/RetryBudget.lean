import DesCartes.Proof.Service.SimpleClient
import Mathlib.Algebra.BigOperators.Group.Finset.Piecewise

/-!
# The tokens of a client's retries

The bucket of a `TokenBucketRetryPolicy` that is never refilled pays for as many immediate retries
as it has tokens. A client clones it for every request, though, so that each request has a bucket of
its own (`Banked`).

* `run_retryBudget`: the runs in which the client grants no more immediate retries than one bucket
  has tokens.
-/

namespace DesCartes.Service

/-- The requests whose policies have been asked, once for each time. -/
def failures {P : Type} (hs : List (Handled (SimpleClient P) Event Empty)) : List RequestId :=
  hs.filterMap fun h => failure? h.before h.input

/-- A call of `schedule` that asks for a retry without delay. -/
def Send.isImmediate (send : Send Event) : Bool :=
  match send.event with
  | .client (.retryRequest _) => send.delay = .zero
  | _ => false

/-- How many immediate retries the client has granted. -/
def immediateRetries {P : Type} (hs : List (Handled (SimpleClient P) Event Empty)) : Nat :=
  (hs.flatMap (·.sends)).countP Send.isImmediate

/-! ## The bucket of one request -/

namespace TokenBucketRetryPolicy

variable {α : Type} {maxAttempts maxTokens baseDelay n : Nat} {rate : α} {p : TokenBucketRetryPolicy α}

/-- The policy of a request after it has granted `n` retries. -/
structure Spent (maxAttempts maxTokens baseDelay : Nat) (rate : α) (p : TokenBucketRetryPolicy α) (n : Nat) : Prop where
  maxAttempts : p.maxAttempts = maxAttempts
  currentAttempt : p.currentAttempt = n
  currentTokens : p.currentTokens = maxTokens - n
  refillRate : p.refillRate = rate
  baseDelay : p.baseDelay = baseDelay

variable [RetryFloat α]

/-- Nothing is refilled. -/
theorem refillTokens_eq (hrate : ∀ elapsed, RetryFloat.tokens elapsed p.refillRate = 0) (now : SimTime) :
    p.refillTokens now = some { p with lastRefill := some (p.lastRefill.getD now) } := by
  rw [refillTokens]
  cases hlast : p.lastRefill with
  | none => rfl
  | some last =>
    simp only [hrate, lt_irrefl, if_false, Option.getD_some]
    rw [← hlast]

/-- A retry is immediate while there are tokens. -/
theorem Spent.shouldRetry (h : Spent maxAttempts maxTokens baseDelay rate p n)
    (hrate : ∀ elapsed, RetryFloat.tokens elapsed rate = 0) {attempt : RequestAttempt}
    {response : Option Response} (hr : isRetryable response) {o : Option Nat}
    {p' : TokenBucketRetryPolicy α}
    (hp : RetryPolicy.shouldRetry p attempt response = some (o, p')) :
    (o = if n < maxAttempts then some (if n < maxTokens then 0 else baseDelay) else none) ∧
      (n < maxAttempts → Spent maxAttempts maxTokens baseDelay rate p' (n + 1)) := by
  obtain ⟨rfl, rfl, htokens, rfl, rfl⟩ := h
  simp only [RetryPolicy.shouldRetry, hr, Bool.not_true, Bool.false_eq_true, if_false] at hp
  split at hp
  · rename_i hlimit
    have hge : ¬p.currentAttempt < p.maxAttempts := by omega
    cases hp
    exact ⟨(if_neg hge).symm, fun hlt => absurd hlt hge⟩
  · rename_i hlimit
    have hlt : p.currentAttempt < p.maxAttempts := by omega
    rw [tryConsumeToken, refillTokens_eq (by exact hrate), Option.map_some, Option.map_some,
      Option.some.injEq,
      Prod.mk.injEq] at hp
    simp only [htokens, Nat.sub_pos_iff_lt] at hp
    rw [if_pos hlt]
    split at hp
    · rename_i htoken
      obtain ⟨rfl, rfl⟩ := hp
      exact ⟨by rw [if_pos htoken]; rfl, fun _ => ⟨rfl, rfl, Nat.sub_sub .., rfl, rfl⟩⟩
    · rename_i htoken
      obtain ⟨rfl, rfl⟩ := hp
      exact ⟨by rw [if_neg htoken]; rfl, fun _ => ⟨rfl, rfl, by simp only; omega, rfl, rfl⟩⟩

end TokenBucketRetryPolicy

/-! ## The buckets of all requests -/

/-- How many retries are immediate, when `limit` are for each request. -/
def immediateSum (limit : Nat) (requests : List RequestId) : Nat :=
  ∑ request ∈ requests.toFinset, min (requests.count request) limit

theorem immediateSum_append (limit : Nat) (requests : List RequestId) (request : RequestId) :
    immediateSum limit (requests ++ [request]) =
      immediateSum limit requests + if requests.count request < limit then 1 else 0 := by
  have hcount : ∀ r, min ((requests ++ [request]).count r) limit =
      min (requests.count r) limit + if r = request then (if requests.count request < limit then 1 else 0) else 0 := by
    intro r
    rw [List.count_append, List.count_singleton]
    by_cases hr : r = request
    · subst hr
      simp only [beq_self_eq_true, if_true]
      split <;> omega
    · rw [if_neg (by simpa using Ne.symm hr), if_neg hr, Nat.add_zero, Nat.add_zero]
  -- a request that has not failed before adds nothing to the first sum
  have hsubset : requests.toFinset ⊆ (requests ++ [request]).toFinset := by
    intro r hr
    rw [List.mem_toFinset] at hr ⊢
    exact List.mem_append_left _ hr
  have hsum : immediateSum limit requests = ∑ r ∈ (requests ++ [request]).toFinset,
      min (requests.count r) limit := by
    refine Finset.sum_subset hsubset fun r _ hr => ?_
    rw [List.mem_toFinset] at hr
    rw [List.count_eq_zero.mpr hr, Nat.zero_min]
  rw [hsum, immediateSum, Finset.sum_congr rfl fun r _ => hcount r, Finset.sum_add_distrib,
    Finset.sum_ite_eq', if_pos]
  rw [List.mem_toFinset]
  exact List.mem_append_right _ List.mem_cons_self

namespace SimpleClient

/-- How many retries of one request are immediate. -/
def immediateLimit (maxAttempts maxTokens baseDelay : Nat) : Nat :=
  if baseDelay = 0 then maxAttempts else min maxAttempts maxTokens

theorem lt_immediateLimit {maxAttempts maxTokens baseDelay n : Nat} (hn : n < maxAttempts) :
    n < immediateLimit maxAttempts maxTokens baseDelay ↔
    SimTime.fromDuration (if n < maxTokens then 0 else baseDelay) = .zero := by
  have hzero : ∀ delay, SimTime.fromDuration delay = .zero ↔ delay = 0 := by
    intro delay
    refine ⟨fun h => ?_, fun h => h ▸ rfl⟩
    have := congrArg SimTime.nanos h
    simp only [SimTime.fromDuration, SimTime.nanos_saturate, SimTime.nanos_zero, u64Max] at this
    omega
  rw [hzero, immediateLimit]
  split <;> split <;> omega

variable {α : Type} {maxAttempts maxTokens baseDelay : Nat} {rate : α} {self : Uuid} {now : SimTime}
  {c c' : SimpleClient (TokenBucketRetryPolicy α)} {fs : List RequestId} {n : Nat}

open TokenBucketRetryPolicy

/-- What holds of a client that has been asked to retry the requests `fs` and has granted `n`
immediate retries: every request has a bucket of its own. -/
structure Banked (maxAttempts maxTokens baseDelay : Nat) (rate : α) (c : SimpleClient (TokenBucketRetryPolicy α))
    (fs : List RequestId) (n : Nat) : Prop where
  policy : Spent maxAttempts maxTokens baseDelay rate c.retryPolicy 0
  issued : ∀ request ∈ c.activeRequests, request.id < c.nextRequestId
  failed : ∀ request ∈ fs, request.id < c.nextRequestId
  active : ∀ request entry, c.activeRequests.lookup request = some entry →
    Spent maxAttempts maxTokens baseDelay rate entry.2 (fs.count request)
  total : n = immediateSum (immediateLimit maxAttempts maxTokens baseDelay) fs

/-- The entry of an active request is changed, or taken out. -/
theorem Banked.change (h : Banked maxAttempts maxTokens baseDelay rate c fs n) {request : RequestId}
    {entry : RequestAttempt × TokenBucketRetryPolicy α}
    (hactive : c.activeRequests.lookup request = some entry)
    {active : AList fun _ : RequestId => RequestAttempt × TokenBucketRetryPolicy α}
    {fs' : List RequestId} (hfs : fs' = fs ∨ fs' = fs ++ [request])
    (hother : ∀ r, r ≠ request → active.lookup r = c.activeRequests.lookup r)
    (hchange : ∀ entry, active.lookup request = some entry →
      Spent maxAttempts maxTokens baseDelay rate entry.2 (fs'.count request))
    {n' : Nat} (htotal : n' = immediateSum (immediateLimit maxAttempts maxTokens baseDelay) fs')
    (hc : c'.retryPolicy = c.retryPolicy ∧ c'.nextRequestId = c.nextRequestId ∧ c'.activeRequests = active) :
    Banked maxAttempts maxTokens baseDelay rate c' fs' n' := by
  obtain ⟨hpolicy, hnext, rfl⟩ := hc
  have hmem : request.id < c.nextRequestId := h.issued request (AList.lookup_isSome.mp (hactive ▸ rfl))
  have hcount : ∀ r, r ≠ request → fs'.count r = fs.count r := by
    intro r hr
    rcases hfs with rfl | rfl
    · rfl
    · rw [List.count_append, List.count_singleton, if_neg (by simpa using Ne.symm hr), Nat.add_zero]
  refine ⟨hpolicy ▸ h.policy, fun r hr => ?_, fun r hr => ?_, fun r entry hentry => ?_, htotal⟩
  · rw [hnext]
    by_cases hr' : r = request
    · exact hr' ▸ hmem
    · exact h.issued r (AList.lookup_isSome.mp (hother r hr' ▸ AList.lookup_isSome.mpr hr))
  · rw [hnext]
    rcases hfs with rfl | rfl
    · exact h.failed r hr
    · rcases List.mem_append.mp hr with hr | hr
      · exact h.failed r hr
      · exact List.mem_singleton.mp hr ▸ hmem
  · by_cases hr' : r = request
    · subst hr'
      exact hchange entry hentry
    · rw [hcount r hr']
      exact h.active r entry (hother r hr' ▸ hentry)

/-- The calls of `schedule` that send an attempt ask for no retry. -/
theorem countP_isImmediate_sendAttempt {P : Type} (self : Uuid) (now : SimTime) (c : SimpleClient P)
    (requestId : RequestId) (attemptNumber : Nat) :
    (c.sendAttempt self now requestId attemptNumber).2.2.countP Send.isImmediate = 0 :=
  rfl

theorem banked_new (name : List Char) (serverKey : Uuid) (maxAttempts maxTokens baseDelay : Nat)
    (rate : α) (requestTimeout : Nat) :
    Banked maxAttempts maxTokens baseDelay rate
      ((new name serverKey ((TokenBucketRetryPolicy.new maxAttempts maxTokens rate).withBaseDelay baseDelay)).withTimeout
        requestTimeout) [] 0 := by
  refine ⟨⟨rfl, rfl, rfl, rfl, rfl⟩, fun r hr => absurd hr (AList.notMem_empty r), nofun,
    fun r entry he => ?_, rfl⟩
  simp [new, withTimeout] at he

variable [RetryFloat α]

/-- Every event keeps the buckets. -/
theorem Moved.banked (hrate : ∀ elapsed, RetryFloat.tokens elapsed rate = 0) {event : Event}
    {sends : List (Send Event)} (hm : c.Moved self now event c' sends)
    (h : Banked maxAttempts maxTokens baseDelay rate c fs n) :
    Banked maxAttempts maxTokens baseDelay rate c' (fs ++ (failure? c (.inl event)).toList)
      (n + sends.countP Send.isImmediate) := by
  cases hm with
  | begun =>
    rw [show failure? c (.inl (.client .sendRequest)) = none from rfl, Option.toList_none, List.append_nil,
      show (c.sendRequest self now).2.countP Send.isImmediate = 0 from rfl, Nat.add_zero]
    obtain ⟨entry₀, hactive, hpolicy⟩ : ∃ entry, (c.sendRequest self now).1.activeRequests =
        c.activeRequests.insert ⟨c.nextRequestId⟩ entry ∧ entry.2 = RetryPolicy.reset c.retryPolicy :=
        ⟨_, rfl, rfl⟩
    refine ⟨h.policy, fun r hr => ?_, fun r hr => Nat.lt_succ_of_lt (h.failed r hr),
      fun r entry hentry => ?_, h.total⟩
    · rw [hactive, AList.mem_insert] at hr
      rcases hr with rfl | hr
      · exact Nat.lt_succ_self _
      · exact Nat.lt_succ_of_lt (h.issued r hr)
    · rw [hactive] at hentry
      by_cases hr : r = ⟨c.nextRequestId⟩
      · subst hr
        rw [AList.lookup_insert] at hentry
        rw [← Option.some.inj hentry, hpolicy, List.count_eq_zero.mpr fun hr => absurd (h.failed _ hr)
          (lt_irrefl _)]
        exact ⟨h.policy.maxAttempts, rfl, h.policy.currentTokens, h.policy.refillRate, h.policy.baseDelay⟩
      · rw [AList.lookup_insert_ne hr] at hentry
        exact h.active r entry hentry
  | ignored _ hnone =>
    rw [hnone, Option.toList_none, List.append_nil]
    exact h
  | @succeeded response entry m hsuccess hactive _ _ =>
    have hnone : failure? c (.inl (.client (.responseReceived response))) = none :=
      if_neg fun h => h.2 hsuccess
    rw [hnone, Option.toList_none, List.append_nil]
    refine h.change hactive (.inl rfl) (fun r hr => AList.lookup_erase_ne hr)
      (fun entry he => ?_) h.total ⟨rfl, rfl, rfl⟩
    rw [AList.lookup_erase] at he
    cases he
  | @granted _ request attempt policy policy' response delay m hasked hr hactive hgrant _ _ =>
    obtain ⟨hdelay, hspent⟩ := (h.active request _ hactive).shouldRetry hrate hr hgrant
    have hlt : fs.count request < maxAttempts := by
      by_contra hge
      rw [if_neg hge] at hdelay
      cases hdelay
    rw [if_pos hlt, Option.some.injEq] at hdelay
    rw [hasked, Option.toList_some]
    refine h.change hactive (.inr rfl) (fun r hr => AList.lookup_insert_ne hr) (fun entry he => ?_) ?_
      ⟨rfl, rfl, rfl⟩
    · rw [AList.lookup_insert] at he
      rw [← Option.some.inj he, List.count_append, List.count_singleton_self]
      exact hspent hlt
    · rw [immediateSum_append, h.total, hdelay]
      simp only [lt_immediateLimit hlt, List.countP_singleton, Send.isImmediate, decide_eq_true_eq]
  | @failed _ request attempt policy policy' response m hasked hr hactive hgrant _ _ =>
    obtain ⟨hdelay, -⟩ := (h.active request _ hactive).shouldRetry hrate hr hgrant
    have hge : ¬fs.count request < maxAttempts := by
      intro hlt
      rw [if_pos hlt] at hdelay
      cases hdelay
    rw [hasked, Option.toList_some]
    refine h.change hactive (.inr rfl) (fun r hr => AList.lookup_erase_ne hr) (fun entry he => ?_) ?_
      ⟨rfl, rfl, rfl⟩
    · rw [AList.lookup_erase] at he
      cases he
    · have hlimit : ¬fs.count request < immediateLimit maxAttempts maxTokens baseDelay := by
        rw [immediateLimit]
        split <;> omega
      rw [immediateSum_append, if_neg hlimit, h.total]
      rfl
  | @retried request entry hactive =>
    rw [show failure? c (.inl (.client (.retryRequest request))) = none from rfl, Option.toList_none,
      List.append_nil]
    obtain ⟨attempt, policy⟩ := entry
    simp only [handleRetry, hactive, countP_isImmediate_sendAttempt, Nat.add_zero]
    refine h.change hactive (.inl rfl) (fun r hr => ?_) (fun entry he => ?_) h.total
      ⟨rfl, rfl, AList.insert_erase⟩
    · exact AList.lookup_insert_ne hr
    · rw [AList.lookup_insert] at he
      have hspent := h.active request _ hactive
      rw [← Option.some.inj he]
      exact hspent

/-! ## Runs -/

theorem failures_append {P : Type} (hs : List (Handled (SimpleClient P) Event Empty))
    (h : Handled (SimpleClient P) Event Empty) :
    failures (hs ++ [h]) = failures hs ++ (failure? h.before h.input).toList := by
  rw [failures, List.filterMap_append]
  cases hf : failure? h.before h.input <;> simp [failures, hf]

theorem immediateRetries_append {P : Type} (hs : List (Handled (SimpleClient P) Event Empty))
    (h : Handled (SimpleClient P) Event Empty) :
    immediateRetries (hs ++ [h]) = immediateRetries hs + h.sends.countP Send.isImmediate := by
  rw [immediateRetries, List.flatMap_append, List.flatMap_singleton, List.countP_append]
  rfl

/-- In any run of a client whose bucket is never refilled: its immediate retries are no more than
the tokens of one bucket exactly when the failures and timeouts of each request, up to the tokens
and the retries that are for each of them, are no more than that taken together. -/
theorem run_retryBudget {τ ρ φ : Type} [EventFrontierPolicy φ] (self : Uuid) (name : List Char) (serverKey : Uuid)
    (maxAttempts maxTokens baseDelay : Nat) {rate : α} (hrate : ∀ elapsed, RetryFloat.tokens elapsed rate = 0)
    (requestTimeout : Nat) (seed : BitVec 64) {ops : List (Hosted.Op Event τ ρ φ Empty)}
    {h : Hosted (SimpleClient (TokenBucketRetryPolicy α)) Event τ ρ}
    {answers : List (Hosted.Answer (SimpleClient (TokenBucketRetryPolicy α)) Event Empty)}
    (hrun : Machine.run (Hosted.step code self)
      ⟨(new name serverKey ((TokenBucketRetryPolicy.new maxAttempts maxTokens rate).withBaseDelay baseDelay)).withTimeout
        requestTimeout, .fresh seed⟩ ops = some (h, answers)) :
    immediateRetries (Hosted.history answers) ≤ maxTokens ↔
      ∑ request ∈ (failures (Hosted.history answers)).toFinset, min ((failures (Hosted.history answers)).count request)
        (if baseDelay = 0 then maxAttempts else min maxAttempts maxTokens) ≤ maxTokens := by
  have hbanked := Hosted.run_rule
    (P := fun c _ hs => Banked maxAttempts maxTokens baseDelay rate c (failures hs) (immediateRetries hs))
    (I := fun _ => True) (A := fun _ => True) (fun _ _ _ _ _ h => h) (fun _ _ _ _ _ h => h)
      (fun c l hs e now c' sends hp _ h => ?_)
    (fun _ _ _ m => m.elim) (fun _ _ _ => trivial) (fun m => m.elim) (Session.wf_fresh seed)
    (banked_new name serverKey maxAttempts maxTokens baseDelay rate requestTimeout) hrun
  · exact iff_of_eq (congrArg (· ≤ maxTokens) hbanked.total)
  · rw [failures_append, immediateRetries_append]
    exact (moved hp).banked hrate h

/-- A floating-point number that is whole. -/
structure Whole where
  value : Nat

instance : RetryFloat Whole where
  scale millis multiplier exponent := min (millis * multiplier.value ^ exponent) u64Max
  tokens elapsed rate := min (elapsed * rate.value / (1000 * nanosPerMilli)) (2 ^ 32 - 1)
  rateBelow outcomes rate := if outcomes = [] then 1 < rate.value else outcomes.count true < rate.value * outcomes.length

/-- Two requests, one after the other, each of which fails once. -/
def twoFailures : List (Hosted.Op Event Unit Unit FifoFrontierPolicy Empty) :=
  let failure (n : Nat) : Event := .client (.responseReceived (.error ⟨n⟩ ⟨n⟩ .zero 503 []))
  [.other (.schedule .zero 7 (.client .sendRequest)), .other .pop, .other (.schedule .zero 7 (.client .sendRequest)), .other .pop,
    .other .pop, .other (.schedule .zero 7 (failure 1)), .other (.schedule .zero 7 (failure 2)), .other .pop, .other .pop,
    .other .pop]

/-- Two immediate retries, of one token. -/
theorem immediateRetries_twoFailures : ∃ (h : Hosted (SimpleClient (TokenBucketRetryPolicy Whole)) Event Unit Unit) (answers : _),
    Machine.run (Hosted.step code 7)
      ⟨(new [] 8 ((TokenBucketRetryPolicy.new 3 1 ⟨0⟩).withBaseDelay 5)).withTimeout 5, .fresh 0⟩ twoFailures = some (h, answers) ∧
    ¬immediateRetries (Hosted.history answers) ≤ 1 :=
  ⟨_, _, rfl, by decide⟩

/-- With two tokens in the bucket, they are enough. -/
theorem run_retryBudget_twoFailures : ∃ (h : Hosted (SimpleClient (TokenBucketRetryPolicy Whole)) Event Unit Unit) (answers : _),
    Machine.run (Hosted.step code 7)
      ⟨(new [] 8 ((TokenBucketRetryPolicy.new 3 2 ⟨0⟩).withBaseDelay 5)).withTimeout 5, .fresh 0⟩ twoFailures = some (h, answers) ∧
    immediateRetries (Hosted.history answers) ≤ 2 := by
  have hrate : ∀ elapsed, RetryFloat.tokens elapsed (⟨0⟩ : Whole) = 0 :=
    fun elapsed => by simp [RetryFloat.tokens]
  have hrun := (rfl : Machine.run (Hosted.step code 7)
    ⟨(new [] 8 ((TokenBucketRetryPolicy.new 3 2 (⟨0⟩ : Whole)).withBaseDelay 5)).withTimeout 5,
      .fresh 0⟩ twoFailures = some (_, _))
  exact ⟨_, _, hrun, (run_retryBudget 7 [] 8 3 2 5 hrate 5 0 hrun).mpr (by decide)⟩

end SimpleClient

end DesCartes.Service
