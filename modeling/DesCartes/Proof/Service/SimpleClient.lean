import DesCartes.Impl.Service.SimpleClient
import DesCartes.Proof.Hosted

/-!
# The requests of a client, and their attempts

`Moved` says what an event does to a client. `Counted` is what holds of its counters and of the
requests that it has concluded; `Budget` ties the attempts of one request to the retries that its
policy has granted.

* `Moved.counted`, `Moved.budget`: what an event keeps;
* `run_accounting`: the counters, the conclusions and the attempts of any run.
-/

namespace DesCartes.Service

/-! ## Policies that grant a limited number of retries -/

/-- A policy that counts the retries that it has granted since it was reset, and grants no more than
its limit. -/
class LimitedRetryPolicy (P : Type) [RetryPolicy P] where
  granted : P → Nat
  granted_reset (p : P) : granted (RetryPolicy.reset p) = 0
  maxAttempts_reset (p : P) : RetryPolicy.maxAttempts (RetryPolicy.reset p) = RetryPolicy.maxAttempts p
  grant {p p' : P} {attempt : RequestAttempt} {response : Option Response} {delay : Nat} :
    RetryPolicy.shouldRetry p attempt response = some (some delay, p') →
      granted p' = granted p + 1 ∧ granted p' ≤ RetryPolicy.maxAttempts p' ∧ RetryPolicy.maxAttempts p' = RetryPolicy.maxAttempts p

section

variable {α γ : Type} [RetryFloat α]

instance [JitterRng γ] : LimitedRetryPolicy (ExponentialBackoffPolicy α γ) where
  granted := ExponentialBackoffPolicy.currentAttempt
  granted_reset _ := rfl
  maxAttempts_reset _ := rfl
  grant {p p' attempt response delay} h := by
    simp only [RetryPolicy.shouldRetry, ExponentialBackoffPolicy.calculateDelay] at h
    split at h
    · cases h
    · rename_i hlimit
      simp only [Bool.or_eq_true, decide_eq_true_eq, not_or, not_lt] at hlimit
      split at h <;> cases h <;> exact ⟨rfl, hlimit.1, rfl⟩

instance : LimitedRetryPolicy (TokenBucketRetryPolicy α) where
  granted := TokenBucketRetryPolicy.currentAttempt
  granted_reset _ := rfl
  maxAttempts_reset _ := rfl
  grant {p p' attempt response delay} h := by
    simp only [RetryPolicy.shouldRetry] at h
    split at h
    · cases h
    · rename_i hlimit
      split at h
      · cases h
      · obtain ⟨⟨token, q⟩, hq, he⟩ := Option.map_eq_some_iff.mp h
        obtain ⟨q', hq', he'⟩ := Option.map_eq_some_iff.mp hq
        cases he
        have hrefill : q'.currentAttempt = p.currentAttempt + 1 ∧ q'.maxAttempts = p.maxAttempts := by
          simp only [TokenBucketRetryPolicy.refillTokens] at hq'
          split at hq'
          · cases hq'; exact ⟨rfl, rfl⟩
          · split at hq'
            · split at hq' <;> cases hq'; exact ⟨rfl, rfl⟩
            · cases hq'; exact ⟨rfl, rfl⟩
        have hconsume : q.currentAttempt = q'.currentAttempt ∧ q.maxAttempts = q'.maxAttempts := by
          split at he' <;> cases he' <;> exact ⟨rfl, rfl⟩
        refine ⟨hconsume.1.trans hrefill.1, ?_, hconsume.2.trans hrefill.2⟩
        show q.currentAttempt ≤ q.maxAttempts
        rw [hconsume.1, hconsume.2, hrefill.1, hrefill.2]
        exact not_lt.mp hlimit

instance : LimitedRetryPolicy (SuccessBasedRetryPolicy α) where
  granted := SuccessBasedRetryPolicy.currentAttempt
  granted_reset _ := rfl
  maxAttempts_reset _ := rfl
  grant {p p' attempt response delay} h := by
    simp only [RetryPolicy.shouldRetry] at h
    split at h
    · cases h
    · rename_i hlimit
      split at h <;> cases h
      exact ⟨rfl, not_lt.mp hlimit, rfl⟩

instance : LimitedRetryPolicy NoRetryPolicy where
  granted _ := 0
  granted_reset _ := rfl
  maxAttempts_reset _ := rfl
  grant h := by cases h

instance : LimitedRetryPolicy FixedRetryPolicy where
  granted := FixedRetryPolicy.currentAttempt
  granted_reset _ := rfl
  maxAttempts_reset _ := rfl
  grant {p p' attempt response delay} h := by
    simp only [RetryPolicy.shouldRetry] at h
    split at h <;> cases h
    rename_i hlimit
    simp only [Bool.or_eq_true, decide_eq_true_eq, not_or, not_lt] at hlimit
    exact ⟨rfl, hlimit.1, rfl⟩

end

/-! ## What an event does -/

/-- The active requests that are active no more afterwards. -/
def takenOut {P : Type} (before after : SimpleClient P) : List RequestId :=
  before.activeRequests.keys.filter (· ∉ after.activeRequests)

/-- The requests that the client has concluded. -/
def concluded {P : Type} (hs : List (Handled (SimpleClient P) Event Empty)) : List RequestId :=
  hs.flatMap fun h => takenOut h.before h.after

/-- The request whose policy is asked: one that is active and has failed, or of which the current
attempt has timed out. -/
def failure? {P : Type} (c : SimpleClient P) : Event ⊕ Empty → Option RequestId
  | .inl (.client (.responseReceived response)) =>
    if response.requestId ∈ c.activeRequests ∧ ¬response.isSuccess then some response.requestId else none
  | .inl (.client (.requestTimeout requestId attemptId)) =>
    if (c.activeRequests.lookup requestId).any fun entry => entry.1.id = attemptId then some requestId else none
  | _ => none

/-- The request that a call of `schedule` sends an attempt for. -/
def Send.attempted (send : Send Event) : Option RequestId :=
  match send.event with
  | .server (.processRequest attempt _) => some attempt.requestId
  | _ => none

/-- How many attempts have been sent for a request. -/
def attempts {P : Type} (hs : List (Handled (SimpleClient P) Event Empty)) (request : RequestId) : Nat :=
  (hs.flatMap fun h => h.sends.filterMap Send.attempted).count request

namespace SimpleClient

variable {P : Type}

theorem concluded_append (hs : List (Handled (SimpleClient P) Event Empty))
    (h : Handled (SimpleClient P) Event Empty) :
    concluded (hs ++ [h]) = concluded hs ++ takenOut h.before h.after := by
  rw [concluded, List.flatMap_append, List.flatMap_singleton]
  rfl

theorem attempts_append (hs : List (Handled (SimpleClient P) Event Empty))
    (h : Handled (SimpleClient P) Event Empty) (request : RequestId) :
    attempts (hs ++ [h]) request =
      attempts hs request + (h.sends.filterMap Send.attempted).count request := by
  rw [attempts, List.flatMap_append, List.flatMap_singleton, List.count_append]
  rfl

section

variable [RetryPolicy P] {self : Uuid} {now : SimTime} {c : SimpleClient P}

/-- What an event does to a client, and what the client schedules then. -/
inductive Moved (self : Uuid) (now : SimTime) (c : SimpleClient P) : Event → SimpleClient P → List (Send Event) → Prop
  | begun : Moved self now c (.client .sendRequest) (c.sendRequest self now).1 (c.sendRequest self now).2
  | ignored (event : Event) : failure? c (.inl event) = none → Moved self now c event c []
  | succeeded {response : Response} {entry : RequestAttempt × P} {m : ClientMetrics} : response.isSuccess →
    c.activeRequests.lookup response.requestId = some entry → m.responsesSuccess = c.metrics.responsesSuccess + 1 →
      m.requestsFailedPermanently = c.metrics.requestsFailedPermanently →
      Moved self now c (.client (.responseReceived response))
        { c with activeRequests := c.activeRequests.erase response.requestId, metrics := m } []
  /-- The policy has been asked, and grants a retry. -/
  | granted (event : Event) {request : RequestId} {attempt : RequestAttempt} {policy policy' : P} {response : Option Response}
    {delay : Nat} {m : ClientMetrics} : failure? c (.inl event) = some request → isRetryable response →
      c.activeRequests.lookup request = some (attempt, policy) →
      RetryPolicy.shouldRetry policy attempt response = some (some delay, policy') →
      m.responsesSuccess = c.metrics.responsesSuccess →
      m.requestsFailedPermanently = c.metrics.requestsFailedPermanently →
      Moved self now c event { c with activeRequests := c.activeRequests.insert request (attempt, policy'), metrics := m }
        [⟨.fromDuration delay, self, .client (.retryRequest request)⟩]
  /-- The policy has been asked, and grants no retry. -/
  | failed (event : Event) {request : RequestId} {attempt : RequestAttempt} {policy policy' : P} {response : Option Response}
    {m : ClientMetrics} : failure? c (.inl event) = some request → isRetryable response →
      c.activeRequests.lookup request = some (attempt, policy) →
      RetryPolicy.shouldRetry policy attempt response = some (none, policy') →
      m.responsesSuccess = c.metrics.responsesSuccess →
      m.requestsFailedPermanently = c.metrics.requestsFailedPermanently + 1 →
      Moved self now c event { c with activeRequests := c.activeRequests.erase request, metrics := m } []
  | retried {request : RequestId} {entry : RequestAttempt × P} : c.activeRequests.lookup request = some entry →
      Moved self now c (.client (.retryRequest request)) (c.handleRetry self now request).1 (c.handleRetry self now request).2

theorem moved {event : Event} {c' : SimpleClient P} {sends : List (Send Event)}
    (h : code.processEvent c self event now = some (c', sends)) : Moved self now c event c' sends := by
  rcases event with event | _ | response | ⟨requestId, attemptId⟩ | requestId
  · cases h
  · obtain ⟨rfl, rfl⟩ := Prod.ext_iff.mp (Option.some.inj h)
    exact .begun
  · simp only [code, handleResponse] at h
    split at h
    · rename_i hactive
      cases h
      exact .ignored _ (if_neg fun hmem => AList.lookup_eq_none.mp hactive hmem.1)
    · rename_i attempt policy hactive
      split at h
      · rename_i hsuccess
        cases h
        exact .succeeded hsuccess hactive rfl rfl
      · rename_i hfailure
        have hasked : failure? c (.inl (.client (.responseReceived response))) = some response.requestId :=
          if_pos ⟨AList.lookup_isSome.mp (hactive ▸ rfl), hfailure⟩
        split at h
        · cases h
        · rename_i delay policy' hp
          cases h
          rw [AList.insert_erase]
          exact .granted _ hasked (by simpa [isRetryable] using hfailure) hactive hp rfl rfl
        · rename_i policy' hp
          cases h
          exact .failed _ hasked (by simpa [isRetryable] using hfailure) hactive hp rfl rfl
  · simp only [code, handleTimeout] at h
    split at h
    · rename_i hactive
      cases h
      exact .ignored _ (by simp [failure?, hactive])
    · rename_i attempt policy hactive
      split at h
      · rename_i hcurrent
        have hasked : failure? c (.inl (.client (.requestTimeout requestId attemptId))) = some requestId := by
          simp [failure?, hactive, hcurrent]
        split at h
        · cases h
        · rename_i delay policy' hp
          cases h
          exact .granted _ hasked rfl hactive hp rfl rfl
        · rename_i policy' hp
          cases h
          exact .failed _ hasked rfl hactive hp rfl rfl
      · rename_i hstale
        cases h
        exact .ignored _ (by simp [failure?, hactive, hstale])
  · obtain ⟨rfl, rfl⟩ := Prod.ext_iff.mp (Option.some.inj h)
    cases hactive : c.activeRequests.lookup requestId with
    | none =>
      simp only [handleRetry, hactive]
      exact .ignored _ rfl
    | some entry => exact .retried hactive

end

/-! ## The counters and the conclusions -/

/-- What holds of the counters of a client, and of the requests that it has concluded. -/
structure Counted (c : SimpleClient P) (out : List RequestId) : Prop where
  issued : ∀ request ∈ c.activeRequests, request.id < c.nextRequestId
  counts : c.requestsSent = c.metrics.responsesSuccess + c.metrics.requestsFailedPermanently + c.activeRequests.len
  nodup : out.Nodup
  gone : ∀ request ∈ out, request.id < c.nextRequestId ∧ request ∉ c.activeRequests
  total : out.length = c.metrics.responsesSuccess + c.metrics.requestsFailedPermanently

variable {self : Uuid} {now : SimTime} {c c' : SimpleClient P} {out : List RequestId}

/-- The client is as before, but for the entry of an active request. -/
theorem Counted.put (h : c.Counted out) {request : RequestId} {entry entry' : RequestAttempt × P}
    (hactive : c.activeRequests.lookup request = some entry)
    (hput : c'.activeRequests = c.activeRequests.insert request entry')
    (hnext : c'.nextRequestId = c.nextRequestId) (hsent : c'.requestsSent = c.requestsSent)
    (hsuccess : c'.metrics.responsesSuccess = c.metrics.responsesSuccess)
    (hfailed : c'.metrics.requestsFailedPermanently = c.metrics.requestsFailedPermanently) :
    c'.Counted (out ++ takenOut c c') := by
  have hmem : request ∈ c.activeRequests := AList.lookup_isSome.mp (hactive ▸ rfl)
  have hsame : ∀ r, r ∈ c'.activeRequests ↔ r ∈ c.activeRequests := by
    intro r
    rw [hput, AList.mem_insert]
    exact ⟨fun h => h.elim (fun e => e ▸ hmem) id, .inr⟩
  rw [takenOut, hput, AList.filter_notMem_insert, List.append_nil]
  refine ⟨fun r hr => ?_, ?_, h.nodup, fun r hr => ?_, ?_⟩
  · rw [hnext]
    exact h.issued r ((hsame r).mp hr)
  · rw [hsent, hsuccess, hfailed, hput, AList.len_insert_of_lookup hactive]
    exact h.counts
  · rw [hnext, hsame]
    exact h.gone r hr
  · rw [hsuccess, hfailed]
    exact h.total

/-- A request is taken out, and counted. -/
theorem Counted.conclude (h : c.Counted out) {request : RequestId} {entry : RequestAttempt × P}
    (hactive : c.activeRequests.lookup request = some entry) {m : ClientMetrics}
    (hm : m.responsesSuccess + m.requestsFailedPermanently =
      c.metrics.responsesSuccess + c.metrics.requestsFailedPermanently + 1)
    (hc' : c' = { c with activeRequests := c.activeRequests.erase request, metrics := m }) :
    c'.Counted (out ++ takenOut c c') := by
  subst hc'
  have hmem : request ∈ c.activeRequests := AList.lookup_isSome.mp (hactive ▸ rfl)
  rw [takenOut, AList.filter_notMem_erase hactive]
  refine ⟨fun r hr => h.issued r (AList.mem_erase.mp hr).2, ?_, ?_, fun r hr => ?_, ?_⟩
  · have hlen := AList.len_erase hactive
    have hcounts := h.counts
    show c.requestsSent = m.responsesSuccess + m.requestsFailedPermanently + (c.activeRequests.erase request).len
    omega
  · rw [List.nodup_append_comm]
    exact List.nodup_cons.mpr ⟨fun hr => (h.gone request hr).2 hmem, h.nodup⟩
  · rcases List.mem_append.mp hr with hr | hr
    · exact ⟨(h.gone r hr).1, fun h' => (h.gone r hr).2 (AList.mem_erase.mp h').2⟩
    · rw [List.mem_singleton.mp hr]
      exact ⟨h.issued request hmem, fun h' => (AList.mem_erase.mp h').1 rfl⟩
  · rw [List.length_append, List.length_singleton, h.total]
    exact hm.symm

/-- A request of a new number is put in. -/
theorem Counted.begin (h : c.Counted out) {entry : RequestAttempt × P}
    (hput : c'.activeRequests = c.activeRequests.insert ⟨c.nextRequestId⟩ entry)
    (hnext : c'.nextRequestId = c.nextRequestId + 1) (hsent : c'.requestsSent = c.requestsSent + 1)
    (hsuccess : c'.metrics.responsesSuccess = c.metrics.responsesSuccess)
    (hfailed : c'.metrics.requestsFailedPermanently = c.metrics.requestsFailedPermanently) :
    c'.Counted (out ++ takenOut c c') := by
  have hnew : (⟨c.nextRequestId⟩ : RequestId) ∉ c.activeRequests :=
    fun hr => absurd (h.issued _ hr) (lt_irrefl _)
  rw [takenOut, hput, AList.filter_notMem_insert, List.append_nil]
  refine ⟨fun r hr => ?_, ?_, h.nodup, fun r hr => ?_, ?_⟩
  · rw [hnext]
    rw [hput, AList.mem_insert] at hr
    rcases hr with rfl | hr
    · exact Nat.lt_succ_self _
    · exact Nat.lt_succ_of_lt (h.issued r hr)
  · rw [hsent, hsuccess, hfailed, hput, AList.len_insert (AList.lookup_eq_none.mpr hnew), h.counts,
      Nat.add_assoc]
  · obtain ⟨hlt, hgone⟩ := h.gone r hr
    rw [hnext, hput, AList.mem_insert]
    refine ⟨Nat.lt_succ_of_lt hlt, fun hr => hgone (hr.resolve_left ?_)⟩
    rintro rfl
    exact absurd hlt (lt_irrefl _)
  · rw [hsuccess, hfailed]
    exact h.total

/-- The event that sends another attempt. -/
def retryOf (request : RequestId) : Event := .client (.retryRequest request)

/-- The calls of `schedule` that send an attempt send no retry. -/
theorem count_retryOf_sendAttempt (self : Uuid) (now : SimTime) (c : SimpleClient P)
    (request requestId : RequestId) (attemptNumber : Nat) :
    ((c.sendAttempt self now requestId attemptNumber).2.2.filterMap (Send.eventFor self)).count
      (retryOf request) = 0 := by
  refine List.count_eq_zero.mpr fun h => ?_
  obtain ⟨send, hsend, he⟩ := List.mem_filterMap.mp h
  simp only [Send.eventFor, Option.ite_none_right_eq_some, Option.some.injEq] at he
  simp only [sendAttempt, List.mem_cons, List.not_mem_nil, or_false] at hsend
  rcases hsend with rfl | rfl <;> cases he.2

variable [RetryPolicy P]

theorem Moved.retryPolicy {event : Event} {sends : List (Send Event)} (hm : c.Moved self now event c' sends) :
    c'.retryPolicy = c.retryPolicy := by
  cases hm with
  | retried hactive =>
    simp only [handleRetry, hactive]
    rfl
  | _ => rfl

/-- Every event keeps the counters. -/
theorem Moved.counted {event : Event} {sends : List (Send Event)} (hm : c.Moved self now event c' sends)
    (h : c.Counted out) : c'.Counted (out ++ takenOut c c') := by
  cases hm with
  | begun => exact h.begin rfl rfl rfl rfl rfl
  | ignored =>
    have hnone : takenOut c c = [] :=
      List.filter_eq_nil_iff.mpr fun r hr => by simpa using AList.mem_keys.mpr hr
    rwa [hnone, List.append_nil]
  | succeeded _ hactive hsuccess hfailed => exact h.conclude hactive (by omega) rfl
  | granted event _ _ hactive _ hsuccess hfailed => exact h.put hactive rfl rfl rfl hsuccess hfailed
  | failed event _ _ hactive _ hsuccess hfailed => exact h.conclude hactive (by omega) rfl
  | retried hactive =>
    simp only [handleRetry, hactive]
    exact h.put hactive AList.insert_erase rfl rfl rfl rfl

/-! ## The attempts of one request -/

variable [LimitedRetryPolicy P]

/-- What holds of a request of which `n` attempts have been sent and `pending` retries are pending:
`next` is the number of the next request, and `m` is the limit of the policy. -/
structure Budget (request : RequestId) (m : Nat) (entry : Option (RequestAttempt × P)) (next pending n : Nat) : Prop where
  active : ∀ e ∈ entry, n + pending ≤ 1 + LimitedRetryPolicy.granted e.2 ∧ LimitedRetryPolicy.granted e.2 ≤ m ∧
    RetryPolicy.maxAttempts e.2 = m
  sent : n ≤ m + 1
  fresh : next ≤ request.id → n + pending = 0

variable {request : RequestId} {m next pending n : Nat} {entry : Option (RequestAttempt × P)}

/-- The request is as before, or it is concluded. -/
theorem Budget.mono (h : Budget request m entry next pending n)
    {entry' : Option (RequestAttempt × P)} {next' pending' : Nat}
    (hentry : entry' = entry ∨ entry' = none) (hnext : next ≤ next')
    (hpending : pending' ≤ pending) :
    Budget request m entry' next' pending' n := by
  refine ⟨fun e he => ?_, h.sent, fun hle => ?_⟩
  · rcases hentry with rfl | rfl
    · obtain ⟨h₁, h₂, h₃⟩ := h.active e he
      exact ⟨by omega, h₂, h₃⟩
    · cases he
  · have := h.fresh (hnext.trans hle)
    omega

theorem Budget.grant (h : Budget request m entry next pending n) {attempt : RequestAttempt}
    {policy policy' : P} {response : Option Response} {delay : Nat}
    (hentry : entry = some (attempt, policy)) (hissued : request.id < next)
    (hgrant : RetryPolicy.shouldRetry policy attempt response = some (some delay, policy')) :
    Budget request m (some (attempt, policy')) next (pending + 1) n := by
  obtain ⟨hgranted, hle, hmax⟩ := LimitedRetryPolicy.grant hgrant
  obtain ⟨h₁, h₂, h₃⟩ := h.active _ hentry
  refine ⟨fun e he => ?_, h.sent, fun hle => absurd hissued (by omega)⟩
  rw [← Option.some.inj he]
  dsimp only at h₁ h₃ ⊢
  exact ⟨by omega, by omega, by omega⟩

/-- The retry that is pending is made. -/
theorem Budget.retry (h : Budget request m entry next (pending + 1) n)
    {attempt attempt' : RequestAttempt} {policy : P} (hentry : entry = some (attempt, policy))
    (hissued : request.id < next) :
    Budget request m (some (attempt', policy)) next pending (n + 1) := by
  obtain ⟨h₁, h₂, h₃⟩ := h.active _ hentry
  dsimp only at h₁ h₂ h₃
  refine ⟨fun e he => ?_, by omega, fun hle => absurd hissued (by omega)⟩
  rw [← Option.some.inj he]
  exact ⟨by dsimp only; omega, h₂, h₃⟩

/-- Every event keeps the budget of a request, if nobody else asks to retry it. -/
theorem Moved.budget {event : Event} {sends : List (Send Event)}
    (hm : c.Moved self now event c' sends)
    (hissued : ∀ r ∈ c.activeRequests, r.id < c.nextRequestId)
    (hmax : RetryPolicy.maxAttempts c.retryPolicy = m) {l : List Event}
    (h : Budget request m (c.activeRequests.lookup request) c.nextRequestId
      ((event :: l).count (retryOf request)) n) :
    Budget request m (c'.activeRequests.lookup request) c'.nextRequestId
      ((sends.filterMap (Send.eventFor self) ++ l).count (retryOf request))
        (n + (sends.filterMap Send.attempted).count request) := by
  have hmem : ∀ {r : RequestId} {e}, c.activeRequests.lookup r = some e → r.id < c.nextRequestId :=
    fun he => hissued _ (AList.lookup_isSome.mp (he ▸ rfl))
  have hle : l.count (retryOf request) ≤ (event :: l).count (retryOf request) := List.count_le_count_cons
  rw [List.count_append]
  cases hm with
  | begun =>
    rw [show (c.sendRequest self now).2.filterMap Send.attempted = [⟨c.nextRequestId⟩] from rfl,
      show ((c.sendRequest self now).2.filterMap (Send.eventFor self)).count (retryOf request) = 0 from
        count_retryOf_sendAttempt self now c request ⟨c.nextRequestId⟩ 1, Nat.zero_add]
    by_cases hr : request = ⟨c.nextRequestId⟩
    · subst hr
      have hfresh := h.fresh le_rfl
      rw [show (c.sendRequest self now).1.activeRequests.lookup ⟨c.nextRequestId⟩ = some
        (_, RetryPolicy.reset c.retryPolicy)
        from AList.lookup_insert _, List.count_singleton_self]
      refine ⟨fun e he => ?_, by omega, fun hle => absurd hle (Nat.not_succ_le_self _)⟩
      rw [← Option.some.inj he, LimitedRetryPolicy.granted_reset, LimitedRetryPolicy.maxAttempts_reset]
      exact ⟨by omega, Nat.zero_le _, hmax⟩
    · rw [show (c.sendRequest self now).1.activeRequests.lookup request = c.activeRequests.lookup request from
        AList.lookup_insert_ne hr, List.count_singleton, if_neg (by simpa using Ne.symm hr)]
      exact h.mono (.inl rfl) (Nat.le_succ _) hle
  | ignored => exact h.mono (.inl rfl) le_rfl (by simpa using hle)
  | succeeded _ hactive _ _ => exact h.mono (AList.lookup_erase_cases ..) le_rfl (by simpa using hle)
  | @granted _ r attempt policy policy' response delay m' _ _ hactive hgrant _ _ =>
    have hsends : [(⟨.fromDuration delay, self, .client (.retryRequest r)⟩ : Send Event)].filterMap
      (Send.eventFor self) =
        [retryOf r] := by simp [Send.eventFor, retryOf]
    rw [hsends]
    by_cases hr : request = r
    · subst hr
      rw [AList.lookup_insert, List.count_singleton_self, Nat.add_comm 1]
      exact (h.mono (.inl rfl) le_rfl hle).grant hactive (hmem hactive) hgrant
    · have hne : retryOf r ≠ retryOf request := fun he => hr (by cases he; rfl)
      rw [AList.lookup_insert_ne hr, List.count_singleton, if_neg (by simpa using hne), Nat.zero_add]
      exact h.mono (.inl rfl) le_rfl hle
  | failed event _ _ hactive _ hsuccess hfailed =>
    exact h.mono (AList.lookup_erase_cases ..) le_rfl (by simpa using hle)
  | @retried r entry hactive =>
    obtain ⟨attempt, policy⟩ := entry
    simp only [handleRetry, hactive]
    have hsent : ∀ c : SimpleClient P,
        (c.sendAttempt self now r (attempt.attemptNumber + 1)).2.2.filterMap Send.attempted = [r] :=
      fun c => rfl
    rw [hsent, count_retryOf_sendAttempt, Nat.zero_add]
    by_cases hr : request = r
    · subst hr
      rw [AList.lookup_insert, List.count_singleton_self]
      rw [show Event.client (.retryRequest request) = retryOf request from rfl, List.count_cons_self] at h
      exact h.retry hactive (hmem hactive)
    · rw [AList.lookup_insert_ne hr, List.count_singleton, if_neg (by simpa using Ne.symm hr)]
      exact h.mono (.inl (AList.lookup_erase_ne hr)) le_rfl hle

/-! ## Runs -/

/-- In any run of a client, whatever events it is sent: the requests sent are those that have
succeeded, those that have failed permanently and those that are active; each is concluded at most
once, and the counters are those of the concluded ones; and no request has more attempts than its
policy's limit and the first one, if the client alone asks to retry it. -/
theorem run_accounting {τ ρ φ : Type} [EventFrontierPolicy φ] (self : Uuid) (name : List Char) (serverKey : Uuid) (policy : P)
    (requestTimeout : Nat) (seed : BitVec 64) {ops : List (Hosted.Op Event τ ρ φ Empty)} {h : Hosted (SimpleClient P) Event τ ρ}
    {answers : List (Hosted.Answer (SimpleClient P) Event Empty)}
    (hrun : Machine.run (Hosted.step code self) ⟨(new name serverKey policy).withTimeout requestTimeout, .fresh seed⟩ ops =
      some (h, answers)) :
    h.component.requestsSent = h.component.metrics.responsesSuccess + h.component.metrics.requestsFailedPermanently +
      h.component.activeRequests.len ∧
    (concluded (Hosted.history answers)).Nodup ∧
    (concluded (Hosted.history answers)).length =
      h.component.metrics.responsesSuccess + h.component.metrics.requestsFailedPermanently ∧
    ∀ request, (∀ delay, .other (.schedule delay self (retryOf request)) ∉ ops) →
      attempts (Hosted.history answers) request ≤ RetryPolicy.maxAttempts policy + 1 := by
  have hcounted : h.component.Counted (concluded (Hosted.history answers)) :=
    Hosted.run_rule (P := fun c _ hs => c.Counted (concluded hs)) (I := fun _ => True)
      (A := fun _ => True) (fun _ _ _ _ _ h => h)
      (fun _ _ _ _ _ h => h) (fun c l hs e now c' sends hp _ h =>
        concluded_append hs _ ▸ (moved hp).counted h)
      (fun _ _ _ m => m.elim) (fun _ _ _ => trivial) (fun m => m.elim) (Session.wf_fresh seed)
      ⟨nofun, rfl, List.nodup_nil, nofun, rfl⟩ hrun
  refine ⟨hcounted.counts, hcounted.nodup, hcounted.total, fun request hforeign => ?_⟩
  have hbudget := Hosted.run_rule (P := fun c l hs => c.Counted (concluded hs) ∧ c.retryPolicy = policy ∧
      Budget request (RetryPolicy.maxAttempts policy) (c.activeRequests.lookup request) c.nextRequestId
        (l.count (retryOf request)) (attempts hs request))
    (I := fun e => e ≠ retryOf request) (A := fun _ => True) (fun c l l' hs hl h => ?_)
      (fun c l hs e he h => ?_)
    (fun c l hs e now c' sends hp _ h => ?_) (fun _ _ _ m => m.elim) (fun delay e he => ?_) (fun m => m.elim)
    (Session.wf_fresh seed) ?_ hrun
  · exact hbudget.2.2.sent
  · rwa [← hl.count_eq]
  · rwa [List.count_cons_of_ne he]
  · obtain ⟨hc, hpolicy, hb⟩ := h
    rw [concluded_append, attempts_append]
    exact ⟨(moved hp).counted hc, (moved hp).retryPolicy.trans hpolicy,
      (moved hp).budget hc.issued (hpolicy ▸ rfl) hb⟩
  · rintro rfl
    exact hforeign delay he
  · exact ⟨⟨nofun, rfl, List.nodup_nil, nofun, rfl⟩, rfl, nofun, Nat.zero_le _, fun _ => rfl⟩

/-- A request that fails twice, under a policy that retries once, and a response that comes too late. -/
def lateResponse : List (Hosted.Op Event Unit Unit FifoFrontierPolicy Empty) :=
  let failure (n : Nat) : Event := .client (.responseReceived (.error ⟨n⟩ ⟨1⟩ .zero 503 []))
  let success (n : Nat) : Event := .client (.responseReceived (.success ⟨n⟩ ⟨1⟩ .zero []))
  [.other (.schedule .zero 7 (.client .sendRequest)), .other .pop, .other (.schedule .zero 7 (failure 1)), .other .pop,
    .other .pop, .other .pop, .other (.schedule .zero 7 (failure 2)), .other .pop, .other .pop,
    .other (.schedule .zero 7 (success 1)), .other .pop]

theorem run_accounting_lateResponse : ∃ (h : Hosted (SimpleClient FixedRetryPolicy) Event Unit Unit) (answers : _),
    Machine.run (Hosted.step code 7) ⟨(new [] 8 (FixedRetryPolicy.new 1 0)).withTimeout 5, .fresh 0⟩ lateResponse =
      some (h, answers) ∧
    (h.component.requestsSent, h.component.metrics.responsesSuccess, h.component.metrics.requestsFailedPermanently) = (1, 0, 1) ∧
    h.component.activeRequests.len = 0 ∧ concluded (Hosted.history answers) = [⟨1⟩] ∧
    attempts (Hosted.history answers) ⟨1⟩ ≤ 2 := by
  have hforeign : ∀ delay, .other (.schedule delay 7 (retryOf ⟨1⟩)) ∉ lateResponse := by
    intro delay he
    simp [lateResponse, retryOf] at he
  exact ⟨_, _, rfl, rfl, rfl, rfl, (run_accounting 7 [] 8 (FixedRetryPolicy.new 1 0) 5 0 (by rfl)).2.2.2
    ⟨1⟩ hforeign⟩

/-- A request under a policy that retries never, and three retries that other code asks for. -/
def foreignRetries : List (Hosted.Op Event Unit Unit FifoFrontierPolicy Empty) :=
  [.other (.schedule .zero 7 (.client .sendRequest)), .other .pop, .other (.schedule .zero 7 (retryOf ⟨1⟩)),
    .other (.schedule .zero 7 (retryOf ⟨1⟩)), .other (.schedule .zero 7 (retryOf ⟨1⟩)), .other .pop, .other .pop,
    .other .pop, .other .pop, .other .pop]

/-- The client sends an attempt for each retry of an active request, whoever asks for it. -/
theorem foreignRetries_fourAttempts : ∃ (h : Hosted (SimpleClient FixedRetryPolicy) Event Unit Unit) (answers : _),
    Machine.run (Hosted.step code 7) ⟨(new [] 8 (FixedRetryPolicy.new 0 0)).withTimeout 5, .fresh 0⟩ foreignRetries =
      some (h, answers) ∧
    RetryPolicy.maxAttempts (FixedRetryPolicy.new 0 0) = 0 ∧ attempts (Hosted.history answers) ⟨1⟩ = 4 :=
  ⟨_, _, rfl, rfl, by decide +kernel⟩

end SimpleClient

end DesCartes.Service
