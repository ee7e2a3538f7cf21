import DesCartes.Framework.Trace
import DesCartes.Proof.Service.SimpleClient

/-!
# When a request fails permanently

A response says which attempt it is for, but the client looks only for its request: a failure that
comes late is charged to the attempt that is current then, and one attempt may be charged twice, for
its timeout and for its failure. `Served` ties the policy of a request to the attempts that have
been sent for it, while every attempt is charged once and for itself (`ChargedOnce`).

* `Moved.served`, `Moved.exhausted`, `Moved.lateIgnored`: an event;
* `run_failedPermanently`: any run.
-/

namespace DesCartes.Service

open Trace

/-- The attempt that has timed out or failed, with its request. -/
def ended? : Event ⊕ Empty → Option (RequestId × RequestAttemptId)
  | .inl (.client (.responseReceived response)) => if response.isSuccess then none else some (response.requestId, response.attemptId)
  | .inl (.client (.requestTimeout requestId attemptId)) => some (requestId, attemptId)
  | _ => none

/-- The attempt that a call of `schedule` sends for the request. -/
def Send.attemptFor (request : RequestId) (send : Send Event) : Option RequestAttemptId :=
  match send.event with
  | .server (.processRequest attempt _) => if attempt.requestId = request then some attempt.id else none
  | _ => none

section
variable {P : Type}

/-- The request whose policy is asked, with the attempt that is current. -/
def charged? (c : SimpleClient P) (input : Event ⊕ Empty) : Option (RequestId × RequestAttemptId) :=
  (failure? c input).bind fun request => (c.activeRequests.lookup request).map fun entry => (request, entry.1.id)

/-- The attempts that the client has charged. -/
def charges (hs : List (Handled (SimpleClient P) Event Empty)) : List (RequestId × RequestAttemptId) :=
  hs.filterMap fun h => charged? h.before h.input

/-- The attempts that have timed out or failed. -/
def endings (hs : List (Handled (SimpleClient P) Event Empty)) : List (RequestId × RequestAttemptId) :=
  hs.filterMap fun h => ended? h.input

/-- The attempts that have been sent for a request. -/
def sentFor (hs : List (Handled (SimpleClient P) Event Empty)) (request : RequestId) : List RequestAttemptId :=
  hs.flatMap fun h => h.sends.filterMap (Send.attemptFor request)

/-- An attempt has been sent, and has timed out after that. -/
def TimedOut (hs : List (Handled (SimpleClient P) Event Empty)) (request : RequestId) (attempt : RequestAttemptId) : Prop :=
  ∃ pre h post, hs = pre ++ h :: post ∧ h.input = .inl (.client (.requestTimeout request attempt)) ∧ attempt ∈ sentFor pre request

/-- The attempt that is charged, if any, is the one that has timed out or failed, and it has not
been charged before. -/
def ChargedOnce (hs : List (Handled (SimpleClient P) Event Empty)) (h : Handled (SimpleClient P) Event Empty) : Prop :=
  ∀ attempt ∈ charged? h.before h.input, ended? h.input = some attempt ∧ attempt ∉ charges hs

instance (hs : List (Handled (SimpleClient P) Event Empty)) (h : Handled (SimpleClient P) Event Empty) :
    Decidable (ChargedOnce hs h) := inferInstanceAs (Decidable (∀ _ ∈ _, _))

/-- A request that is counted as failed permanently has been sent `m + 1` times, and each attempt
has timed out or failed. -/
def Exhausted (m : Nat) (hs : List (Handled (SimpleClient P) Event Empty)) (h : Handled (SimpleClient P) Event Empty) : Prop :=
  h.before.metrics.requestsFailedPermanently < h.after.metrics.requestsFailedPermanently →
    ∃ request, takenOut h.before h.after = [request] ∧ (sentFor (hs ++ [h]) request).length = m + 1 ∧
      ∀ attempt ∈ sentFor (hs ++ [h]) request, (request, attempt) ∈ endings (hs ++ [h])

/-- The failure of an attempt that has timed out changes no request, and asks for no retry. -/
def LateIgnored (hs : List (Handled (SimpleClient P) Event Empty)) (h : Handled (SimpleClient P) Event Empty) : Prop :=
  ∀ response, h.input = .inl (.client (.responseReceived response)) → ¬response.isSuccess →
    TimedOut hs response.requestId response.attemptId → h.after.activeRequests = h.before.activeRequests ∧ h.sends = []

/-! ## The last event of a history -/

variable {hs : List (Handled (SimpleClient P) Event Empty)} {h : Handled (SimpleClient P) Event Empty} {request : RequestId}
  {attempt : RequestAttemptId}

theorem sentFor_concat :
    sentFor (hs ++ [h]) request = sentFor hs request ++ h.sends.filterMap (Send.attemptFor request) := by
  rw [sentFor, List.flatMap_append, List.flatMap_singleton]
  rfl

theorem charges_concat : charges (hs ++ [h]) = charges hs ++ (charged? h.before h.input).toList := by
  rw [charges, List.filterMap_append]
  cases hc : charged? h.before h.input <;> simp [hc, charges]

theorem endings_concat : endings (hs ++ [h]) = endings hs ++ (ended? h.input).toList := by
  rw [endings, List.filterMap_append]
  cases he : ended? h.input <;> simp [he, endings]

theorem timedOut_concat : TimedOut (hs ++ [h]) request attempt ↔
    TimedOut hs request attempt ∨ h.input = .inl (.client (.requestTimeout request attempt)) ∧
    attempt ∈ sentFor hs request := by
  have hiff : ∀ {l : List (Handled (SimpleClient P) Event Empty)}, TimedOut l request attempt ↔
      ¬Each (fun pre h => ¬(h.input = .inl (.client (.requestTimeout request attempt)) ∧
        attempt ∈ sentFor pre request)) l := by
    intro l
    simp only [TimedOut, Each, not_forall, not_not, exists_prop]
  rw [hiff, hiff, each_concat, not_and_or, not_not]

theorem TimedOut.mem_sentFor (ht : TimedOut hs request attempt) : attempt ∈ sentFor hs request := by
  obtain ⟨pre, x, post, rfl, -, hsent⟩ := ht
  rw [sentFor, List.flatMap_append]
  exact List.mem_append_left _ hsent

theorem charged?_timeout {c : SimpleClient P} {entry : RequestAttempt × P}
    (hactive : c.activeRequests.lookup request = some entry) :
    charged? c (.inl (.client (.requestTimeout request entry.1.id))) = some (request, entry.1.id) := by
  simp [charged?, failure?, hactive]

theorem charged?_of_failure {c : SimpleClient P} {input : Event ⊕ Empty}
    (hasked : failure? c input = some request) {entry : RequestAttempt × P}
    (hactive : c.activeRequests.lookup request = some entry) :
    charged? c input = some (request, entry.1.id) := by
  rw [charged?, hasked, Option.bind_some, hactive]
  rfl

end

namespace SimpleClient

variable {self : Uuid} {now : SimTime} {c c' : SimpleClient FixedRetryPolicy} {request : RequestId} {m pending pending' : Nat}
  {hs : List (Handled (SimpleClient FixedRetryPolicy) Event Empty)} {x : Handled (SimpleClient FixedRetryPolicy) Event Empty}

/-! ## The attempts of one request -/

/-- Where the current attempt stands, after those in `earlier`: it is in flight, or it has been
charged and a retry is pending. -/
inductive Standing (request : RequestId) (m pending : Nat) (hs : List (Handled (SimpleClient FixedRetryPolicy) Event Empty))
    (attempt : RequestAttemptId) (earlier : List RequestAttemptId) (granted : Nat) : Prop
  | inFlight : granted = earlier.length → earlier.length ≤ m → pending = 0 → Standing request m pending hs attempt earlier granted
  | charged : granted = earlier.length + 1 → earlier.length < m → pending ≤ 1 → (request, attempt) ∈ charges hs →
      (request, attempt) ∈ endings hs → Standing request m pending hs attempt earlier granted

/-- What holds of an active request. -/
structure Current (request : RequestId) (m pending : Nat) (hs : List (Handled (SimpleClient FixedRetryPolicy) Event Empty))
    (attempt : RequestAttemptId) (policy : FixedRetryPolicy) : Prop where
  limit : policy.maxAttempts = m
  standing : ∃ earlier, sentFor hs request = earlier ++ [attempt] ∧ (∀ a ∈ earlier, (request, a) ∈ endings hs) ∧
    Standing request m pending hs attempt earlier policy.currentAttempt
  timedOut : TimedOut hs request attempt → (request, attempt) ∈ charges hs

/-- What holds of a request of which `pending` retries are pending. -/
structure Served (c : SimpleClient FixedRetryPolicy) (request : RequestId) (m pending : Nat)
    (hs : List (Handled (SimpleClient FixedRetryPolicy) Event Empty)) : Prop where
  issued : ∀ attempt ∈ sentFor hs request, attempt.id < c.nextAttemptId ∧ request.id < c.nextRequestId
  fresh : c.nextRequestId ≤ request.id → pending = 0
  active : ∀ entry, c.activeRequests.lookup request = some entry → Current request m pending hs entry.1.id entry.2

/-- The request is not charged, and no attempt of it is sent. -/
theorem Current.concat {attempt : RequestAttempt} {policy : FixedRetryPolicy}
    (h : Current request m pending hs attempt.id policy)
    (hactive : x.before.activeRequests.lookup request = some (attempt, policy))
    (hsent : x.sends.filterMap (Send.attemptFor request) = []) (hpending : pending' ≤ pending) :
    Current request m pending' (hs ++ [x]) attempt.id policy := by
  obtain ⟨earlier, hearlier, hended, hstanding⟩ := h.standing
  refine ⟨h.limit, ⟨earlier, ?_, fun a ha => ?_, ?_⟩, fun ht => ?_⟩
  · rw [sentFor_concat, hsent, List.append_nil, hearlier]
  · rw [endings_concat]
    exact List.mem_append_left _ (hended a ha)
  · cases hstanding with
    | inFlight hgranted hle hzero => exact .inFlight hgranted hle (by omega)
    | charged hgranted hlt hone hcharged hended =>
      refine .charged hgranted hlt (by omega) ?_ ?_
      · rw [charges_concat]
        exact List.mem_append_left _ hcharged
      · rw [endings_concat]
        exact List.mem_append_left _ hended
  · rw [charges_concat]
    rcases timedOut_concat.mp ht with ht | ⟨hinput, -⟩
    · exact List.mem_append_left _ (h.timedOut ht)
    · rw [hinput, charged?_timeout hactive]
      exact List.mem_append_right _ List.mem_cons_self

/-- The attempt has not been charged before. -/
theorem Current.inFlight {attempt : RequestAttemptId} {policy : FixedRetryPolicy}
    (h : Current request m pending hs attempt policy)
    (hcharged : charged? x.before x.input = some (request, attempt)) (honce : ChargedOnce hs x) :
    ∃ earlier, sentFor hs request = earlier ++ [attempt] ∧
    (∀ a ∈ earlier ++ [attempt], (request, a) ∈ endings (hs ++ [x])) ∧
      policy.currentAttempt = earlier.length ∧ earlier.length ≤ m ∧ pending = 0 := by
  obtain ⟨hended, hnot⟩ := honce _ hcharged
  obtain ⟨earlier, hearlier, hbefore, hstanding⟩ := h.standing
  refine ⟨earlier, hearlier, fun a ha => ?_, ?_⟩
  · rw [endings_concat, hended, Option.toList_some, List.mem_append, List.mem_singleton, Prod.mk.injEq]
    rcases List.mem_append.mp ha with ha | ha
    · exact .inl (hbefore a ha)
    · exact .inr ⟨rfl, List.mem_singleton.mp ha⟩
  · cases hstanding with
    | inFlight hgranted hle hzero => exact ⟨hgranted, hle, hzero⟩
    | charged _ _ _ hcharged => exact absurd hcharged hnot

/-- The attempt is charged, and a retry granted. -/
theorem Current.charge {attempt : RequestAttempt} {policy policy' : FixedRetryPolicy}
    {response : Option Response} {delay : Nat} (h : Current request m pending hs attempt.id policy)
    (hcharged : charged? x.before x.input = some (request, attempt.id)) (honce : ChargedOnce hs x)
    (hsent : x.sends.filterMap (Send.attemptFor request) = [])
    (hgrant : RetryPolicy.shouldRetry policy attempt response = some (some delay, policy'))
    (hpending : pending' ≤ pending) :
    Current request m (pending' + 1) (hs ++ [x]) attempt.id policy' := by
  obtain ⟨hgranted, hle, hmax⟩ := LimitedRetryPolicy.grant hgrant
  obtain ⟨earlier, hearlier, hended, hcurrent, -, hzero⟩ := h.inFlight hcharged honce
  have hmem : (request, attempt.id) ∈ charges (hs ++ [x]) := by
    rw [charges_concat, hcharged]
    exact List.mem_append_right _ List.mem_cons_self
  refine ⟨hmax.trans h.limit, ⟨earlier, ?_, fun a ha => hended a (List.mem_append_left _ ha), ?_⟩,
    fun _ => hmem⟩
  · rw [sentFor_concat, hsent, List.append_nil, hearlier]
  · have hlimit : RetryPolicy.maxAttempts policy = m := h.limit
    have hnow : LimitedRetryPolicy.granted policy = earlier.length := hcurrent
    refine .charged (hgranted.trans (by rw [hnow])) (by omega) (by omega) hmem (hended _ ?_)
    exact List.mem_append_right _ List.mem_cons_self

/-- The retry that is pending is made. -/
theorem Current.retry {attempt attempt' : RequestAttemptId} {policy : FixedRetryPolicy}
    (h : Current request m (pending + 1) hs attempt policy)
    (hsent : x.sends.filterMap (Send.attemptFor request) = [attempt'])
    (hnew : attempt' ∉ sentFor hs request) :
    Current request m pending (hs ++ [x]) attempt' policy := by
  obtain ⟨earlier, hearlier, hended, hstanding⟩ := h.standing
  refine ⟨h.limit, ⟨earlier ++ [attempt], ?_, fun a ha => ?_, ?_⟩, fun ht => ?_⟩
  · rw [sentFor_concat, hsent, hearlier]
  · rw [endings_concat]
    refine List.mem_append_left _ ?_
    rcases List.mem_append.mp ha with ha | ha
    · exact hended a ha
    · cases hstanding with
      | inFlight _ _ hzero => exact absurd hzero (Nat.succ_ne_zero _)
      | charged _ _ _ _ hended => exact List.mem_singleton.mp ha ▸ hended
  · cases hstanding with
    | inFlight _ _ hzero => exact absurd hzero (Nat.succ_ne_zero _)
    | charged hgranted hlt hone _ _ =>
      exact .inFlight (by rw [hgranted, List.length_append, List.length_singleton])
        (by rw [List.length_append, List.length_singleton]; exact hlt) (by omega)
  · rcases timedOut_concat.mp ht with ht | ⟨-, hsent⟩
    · exact absurd ht.mem_sentFor hnew
    · exact absurd hsent hnew

/-! ## What an event does -/

theorem served_new (name : List Char) (serverKey : Uuid) (policy : FixedRetryPolicy)
    (requestTimeout : Nat) (request : RequestId) (m : Nat) :
    ((new name serverKey policy).withTimeout requestTimeout).Served request m 0 [] :=
  ⟨nofun, fun _ => rfl, nofun⟩

theorem filterMap_attemptFor_sendAttempt {P : Type} (self : Uuid) (now : SimTime)
    (c : SimpleClient P) (request requestId : RequestId) (attemptNumber : Nat) :
    (c.sendAttempt self now requestId attemptNumber).2.2.filterMap (Send.attemptFor request) =
      if requestId = request then [⟨c.nextAttemptId⟩] else [] := by
  rw [sendAttempt, List.filterMap_cons_none rfl]
  by_cases hr : requestId = request
  · rw [if_pos hr]
    exact List.filterMap_cons_some (if_pos hr)
  · rw [if_neg hr]
    exact List.filterMap_cons_none (if_neg hr)

/-- Nothing is sent for the request, and it is active as before or not at all. -/
theorem Served.concat (h : c.Served request m pending hs) (hbefore : x.before = c)
    (hactive : c'.activeRequests.lookup request = c.activeRequests.lookup request ∨
      c'.activeRequests.lookup request = none)
    (hattempt : c.nextAttemptId ≤ c'.nextAttemptId) (hrequest : c.nextRequestId ≤ c'.nextRequestId)
    (hsent : x.sends.filterMap (Send.attemptFor request) = []) (hpending : pending' ≤ pending) :
    c'.Served request m pending' (hs ++ [x]) := by
  refine ⟨fun attempt ha => ?_, fun hle => ?_, fun entry he => ?_⟩
  · rw [sentFor_concat, hsent, List.append_nil] at ha
    obtain ⟨h₁, h₂⟩ := h.issued attempt ha
    exact ⟨h₁.trans_le hattempt, h₂.trans_le hrequest⟩
  · have := h.fresh (hrequest.trans hle)
    omega
  · rcases hactive with hactive | hactive
    · rw [hactive] at he
      exact (h.active entry he).concat (hbefore ▸ he) hsent hpending
    · rw [hactive] at he
      cases he

/-- An attempt is sent, with the next number. -/
theorem Served.send (h : c.Served request m pending hs)
    (hsent : x.sends.filterMap (Send.attemptFor request) = [⟨c.nextAttemptId⟩])
    (hattempt : c'.nextAttemptId = c.nextAttemptId + 1) (hissued : request.id < c'.nextRequestId)
    (hactive : ∀ entry, c'.activeRequests.lookup request = some entry →
      Current request m pending' (hs ++ [x]) entry.1.id entry.2) :
    c'.Served request m pending' (hs ++ [x]) := by
  refine ⟨fun attempt ha => ?_, fun hle => absurd hissued (by omega), hactive⟩
  rw [sentFor_concat, hsent, List.mem_append, List.mem_singleton] at ha
  rw [hattempt]
  rcases ha with ha | rfl
  · exact ⟨Nat.lt_succ_of_lt (h.issued attempt ha).1, hissued⟩
  · exact ⟨Nat.lt_succ_self _, hissued⟩

/-- The entry of the request is changed. -/
theorem Served.charge (h : c.Served request m pending hs) (hissued : request.id < c.nextRequestId)
    (hattempt : c'.nextAttemptId = c.nextAttemptId) (hrequest : c'.nextRequestId = c.nextRequestId)
    (hsent : x.sends.filterMap (Send.attemptFor request) = [])
    {entry : RequestAttempt × FixedRetryPolicy}
    (hactive : c'.activeRequests.lookup request = some entry)
    (hcurrent : Current request m pending' (hs ++ [x]) entry.1.id entry.2) :
    c'.Served request m pending' (hs ++ [x]) := by
  refine ⟨fun a ha => ?_, fun hle => absurd hissued (by omega), fun entry' he => ?_⟩
  · rw [sentFor_concat, hsent, List.append_nil] at ha
    rw [hattempt, hrequest]
    exact h.issued a ha
  · rw [hactive] at he
    rwa [← Option.some.inj he]

theorem Served.next_notMem (h : c.Served request m pending hs) : ⟨c.nextAttemptId⟩ ∉ sentFor hs request :=
  fun hmem => absurd (h.issued _ hmem).1 (lt_irrefl _)

/-- The request is begun, or another one is. -/
theorem Served.sendRequest {event : Event} (h : c.Served request m pending hs)
    (hlimit : c.retryPolicy.maxAttempts = m) (hle : pending' ≤ pending) :
    (c.sendRequest self now).1.Served request m pending'
      (hs ++ [⟨c, .inl event, now, (c.sendRequest self now).1, (c.sendRequest self now).2⟩]) := by
  have hsent := filterMap_attemptFor_sendAttempt self now { c with nextRequestId := c.nextRequestId + 1 } request ⟨c.nextRequestId⟩ 1
  by_cases hr : request = ⟨c.nextRequestId⟩
  · subst hr
    rw [if_pos rfl] at hsent
    have hnone : sentFor hs ⟨c.nextRequestId⟩ = [] :=
      List.eq_nil_iff_forall_not_mem.mpr fun a ha => absurd (h.issued a ha).2 (lt_irrefl _)
    refine h.send hsent rfl (Nat.lt_succ_self _) fun entry he => ?_
    rw [show (c.sendRequest self now).1.activeRequests.lookup ⟨c.nextRequestId⟩ =
      some ((c.sendAttempt self now ⟨c.nextRequestId⟩ 1).1,
        RetryPolicy.reset c.retryPolicy) from AList.lookup_insert _] at he
    obtain rfl := Option.some.inj he
    have hfresh := h.fresh le_rfl
    refine ⟨hlimit, ⟨[], ?_, nofun, .inFlight rfl (Nat.zero_le _) (by omega)⟩, fun ht => ?_⟩
    · rw [sentFor_concat, hnone]
      exact hsent
    · rcases timedOut_concat.mp ht with ht | ⟨-, hmem⟩
      · exact absurd ht.mem_sentFor h.next_notMem
      · exact absurd hmem h.next_notMem
  · rw [if_neg (Ne.symm hr)] at hsent
    exact h.concat rfl (.inl (AList.lookup_insert_ne hr)) (Nat.le_succ _) (Nat.le_succ _) hsent hle

/-- The retry that is pending is made. -/
theorem Served.handleRetry {event : Event} (h : c.Served request m (pending + 1) hs)
    {entry : RequestAttempt × FixedRetryPolicy}
    (hactive : c.activeRequests.lookup request = some entry)
    (hissued : request.id < c.nextRequestId) :
    (c.handleRetry self now request).1.Served request m pending
      (hs ++ [⟨c, .inl event, now, (c.handleRetry self now request).1,
        (c.handleRetry self now request).2⟩]) := by
  obtain ⟨attempt, policy⟩ := entry
  have hsent := filterMap_attemptFor_sendAttempt self now { c with activeRequests := c.activeRequests.erase request } request request
    (attempt.attemptNumber + 1)
  rw [if_pos rfl] at hsent
  simp only [SimpleClient.handleRetry, hactive]
  refine h.send hsent rfl hissued fun entry he => ?_
  rw [AList.lookup_insert] at he
  obtain rfl := Option.some.inj he
  exact (h.active _ hactive).retry hsent h.next_notMem

theorem Served.handleRetry_other {event : Event} (h : c.Served request m pending hs) {r : RequestId}
    {entry : RequestAttempt × FixedRetryPolicy} (hactive : c.activeRequests.lookup r = some entry)
    (hr : request ≠ r) (hle : pending' ≤ pending) :
    (c.handleRetry self now r).1.Served request m pending'
      (hs ++ [⟨c, .inl event, now, (c.handleRetry self now r).1, (c.handleRetry self now r).2⟩]) := by
  obtain ⟨attempt, policy⟩ := entry
  have hsent := filterMap_attemptFor_sendAttempt self now { c with activeRequests := c.activeRequests.erase r } request r
    (attempt.attemptNumber + 1)
  rw [if_neg (Ne.symm hr)] at hsent
  simp only [SimpleClient.handleRetry, hactive]
  refine h.concat rfl (.inl ?_) (Nat.le_succ _) le_rfl hsent hle
  exact (AList.lookup_insert_ne hr).trans (AList.lookup_erase_ne hr)

/-- Every event, if nobody else asks to retry the request. -/
theorem Moved.served {event : Event} {sends : List (Send Event)}
    (hm : c.Moved self now event c' sends) (honce : ChargedOnce hs ⟨c, .inl event, now, c', sends⟩)
    (hissued : ∀ r ∈ c.activeRequests, r.id < c.nextRequestId)
    (hlimit : c.retryPolicy.maxAttempts = m) {l : List Event}
    (h : c.Served request m ((event :: l).count (retryOf request)) hs) :
    c'.Served request m ((sends.filterMap (Send.eventFor self) ++ l).count (retryOf request))
      (hs ++ [⟨c, .inl event, now, c', sends⟩]) := by
  have hle : l.count (retryOf request) ≤ (event :: l).count (retryOf request) := List.count_le_count_cons
  rw [List.count_append]
  cases hm with
  | begun =>
    rw [show ((c.sendRequest self now).2.filterMap (Send.eventFor self)).count (retryOf request) = 0 from
        count_retryOf_sendAttempt self now c request ⟨c.nextRequestId⟩ 1, Nat.zero_add]
    exact h.sendRequest hlimit hle
  | ignored => exact h.concat rfl (.inl rfl) le_rfl le_rfl rfl (by simpa using hle)
  | succeeded _ hactive _ _ =>
    exact h.concat rfl (AList.lookup_erase_cases ..) le_rfl le_rfl rfl (by simpa using hle)
  | failed event _ _ hactive _ _ _ =>
    exact h.concat rfl (AList.lookup_erase_cases ..) le_rfl le_rfl rfl (by simpa using hle)
  | @granted _ r attempt policy policy' response delay m' hasked _ hactive hgrant _ _ =>
    have hsends : [(⟨.fromDuration delay, self, .client (.retryRequest r)⟩ : Send Event)].filterMap
      (Send.eventFor self) =
        [retryOf r] := by simp [Send.eventFor, retryOf]
    rw [hsends]
    by_cases hr : request = r
    · subst hr
      rw [List.count_singleton_self, Nat.add_comm 1]
      have hcharged := charged?_of_failure hasked hactive
      refine h.charge (hissued _ (AList.lookup_isSome.mp (hactive ▸ rfl))) rfl rfl rfl
        (AList.lookup_insert _) ?_
      exact (h.active _ hactive).charge (x := ⟨c, .inl event, now, _, _⟩) hcharged honce rfl hgrant hle
    · have hne : retryOf r ≠ retryOf request := fun he => hr (by cases he; rfl)
      rw [List.count_singleton, if_neg (by simpa using hne), Nat.zero_add]
      exact h.concat rfl (.inl (AList.lookup_insert_ne hr)) le_rfl le_rfl rfl hle
  | @retried r entry hactive =>
    have hsends : ((c.handleRetry self now r).2.filterMap (Send.eventFor self)).count
        (retryOf request) = 0 := by
      simp only [handleRetry, hactive]
      exact count_retryOf_sendAttempt ..
    rw [hsends, Nat.zero_add]
    by_cases hr : request = r
    · subst hr
      rw [show Event.client (.retryRequest request) = retryOf request from rfl, List.count_cons_self] at h
      exact h.handleRetry hactive (hissued _ (AList.lookup_isSome.mp (hactive ▸ rfl)))
    · exact h.handleRetry_other hactive hr hle

/-- A policy that is asked and grants no retry has granted as many as it can. -/
theorem le_currentAttempt {policy policy' : FixedRetryPolicy} {attempt : RequestAttempt}
    {response : Option Response} (hr : isRetryable response)
    (hrefused : RetryPolicy.shouldRetry policy attempt response = some (none, policy')) :
    policy.maxAttempts ≤ policy.currentAttempt := by
  simp only [RetryPolicy.shouldRetry, hr, Bool.not_true, Bool.or_false, decide_eq_true_eq] at hrefused
  split at hrefused
  · omega
  · cases hrefused

theorem Moved.exhausted {event : Event} {sends : List (Send Event)}
    (hm : c.Moved self now event c' sends) (honce : ChargedOnce hs ⟨c, .inl event, now, c', sends⟩)
    (h : ∀ request, ∃ pending, c.Served request m pending hs) :
    Exhausted m hs ⟨c, .inl event, now, c', sends⟩ := by
  intro hcounted
  cases hm with
  | begun => exact absurd hcounted (lt_irrefl _)
  | ignored => exact absurd hcounted (lt_irrefl _)
  | succeeded _ _ _ hfailed => exact absurd hcounted (hfailed ▸ lt_irrefl _)
  | granted event _ _ _ _ _ hfailed => exact absurd hcounted (hfailed ▸ lt_irrefl _)
  | @failed _ request attempt policy policy' response m' hasked hr hactive hrefused _ _ =>
    obtain ⟨pending, hserved⟩ := h request
    have hcurrent := hserved.active _ hactive
    obtain ⟨earlier, hearlier, hended, hgranted, hle, -⟩ :=
      hcurrent.inFlight (x := ⟨c, .inl event, now, _, []⟩) (charged?_of_failure hasked hactive) honce
    have hlimit : m ≤ earlier.length := hcurrent.limit ▸ hgranted ▸ le_currentAttempt hr hrefused
    have hsent : ∀ y : Handled (SimpleClient FixedRetryPolicy) Event Empty, y.sends = [] →
        sentFor (hs ++ [y]) request = earlier ++ [attempt.id] := by
      intro y hy
      rw [sentFor_concat, hy, hearlier]
      exact List.append_nil _
    refine ⟨request, AList.filter_notMem_erase hactive, ?_, fun a ha => hended a ?_⟩
    · rw [hsent _ rfl, List.length_append, List.length_singleton]
      omega
    · rwa [hsent _ rfl] at ha
  | @retried request entry hactive =>
    simp only [handleRetry, hactive] at hcounted
    exact absurd hcounted (lt_irrefl _)

theorem Moved.lateIgnored {event : Event} {sends : List (Send Event)}
    (hm : c.Moved self now event c' sends) (honce : ChargedOnce hs ⟨c, .inl event, now, c', sends⟩)
    (h : ∀ request, ∃ pending, c.Served request m pending hs) :
    LateIgnored hs ⟨c, .inl event, now, c', sends⟩ := by
  intro response hinput hfailure htimedOut
  obtain rfl : event = .client (.responseReceived response) := Sum.inl.inj hinput
  -- the policy of a request that is active is asked, which charges the attempt once more
  have hnone : failure? c (.inl (.client (.responseReceived response))) = none := by
    rw [failure?, if_neg]
    rintro ⟨hmem, -⟩
    obtain ⟨entry, hactive⟩ := Option.isSome_iff_exists.mp (AList.lookup_isSome.mpr hmem)
    have hasked : failure? c (.inl (.client (.responseReceived response))) = some response.requestId :=
      if_pos ⟨hmem, hfailure⟩
    obtain ⟨hended, hnot⟩ := honce _ (charged?_of_failure hasked hactive)
    rw [ended?, if_neg hfailure, Option.some.injEq, Prod.mk.injEq] at hended
    obtain ⟨pending, hserved⟩ := h response.requestId
    exact hnot ((hserved.active _ hactive).timedOut (hended.2 ▸ htimedOut))
  cases hm with
  | ignored => exact ⟨rfl, rfl⟩
  | succeeded hsuccess => exact absurd hsuccess hfailure
  | granted event hasked => cases hnone.symm.trans hasked
  | failed event hasked => cases hnone.symm.trans hasked

/-! ## Runs -/

/-- In any run of a client that alone asks to retry its requests, while every failure and every
timeout that the client charges to an attempt is its own and its first: a request fails permanently
only after it has been sent as often as it can be and every attempt has timed out or failed, and the
failure of an attempt that has timed out changes nothing. -/
theorem run_failedPermanently {τ ρ φ : Type} [EventFrontierPolicy φ] (self : Uuid) (name : List Char) (serverKey : Uuid)
    (maxAttempts retryDelay requestTimeout : Nat) (seed : BitVec 64) {ops : List (Hosted.Op Event τ ρ φ Empty)}
    {h : Hosted (SimpleClient FixedRetryPolicy) Event τ ρ} {answers : List (Hosted.Answer (SimpleClient FixedRetryPolicy) Event Empty)}
    (hforeign : ∀ delay request, .other (.schedule delay self (retryOf request)) ∉ ops)
    (hrun : Machine.run (Hosted.step code self)
      ⟨(new name serverKey (.new maxAttempts retryDelay)).withTimeout requestTimeout, .fresh seed⟩ ops = some (h, answers))
    (honce : Each ChargedOnce (Hosted.history answers)) :
    Each (Exhausted maxAttempts) (Hosted.history answers) ∧ Each LateIgnored (Hosted.history answers) := by
  have hkept := Hosted.run_rule (P := fun c l hs => c.Counted (concluded hs) ∧
    c.retryPolicy = .new maxAttempts retryDelay ∧
      (Each ChargedOnce hs → (∀ request, c.Served request maxAttempts (l.count (retryOf request)) hs) ∧
        Each (Exhausted maxAttempts) hs ∧ Each LateIgnored hs))
    (I := fun e => ∀ request, e ≠ retryOf request) (A := fun _ => True) (fun c l l' hs hl h => ?_)
      (fun c l hs e he h => ?_)
    (fun c l hs e now c' sends hp _ h => ?_) (fun _ _ _ m => m.elim) (fun delay e he => ?_) (fun m => m.elim)
    (Session.wf_fresh seed) ?_ hrun
  · exact (hkept.2.2 honce).2
  · refine ⟨h.1, h.2.1, fun honce => ⟨fun request => ?_, (h.2.2 honce).2⟩⟩
    rw [← hl.count_eq]
    exact (h.2.2 honce).1 request
  · refine ⟨h.1, h.2.1, fun honce => ⟨fun request => ?_, (h.2.2 honce).2⟩⟩
    rw [List.count_cons_of_ne (he request)]
    exact (h.2.2 honce).1 request
  · obtain ⟨hc, hpolicy, hkept⟩ := h
    have hm := moved hp
    refine ⟨concluded_append hs _ ▸ hm.counted hc, hm.retryPolicy.trans hpolicy, fun honce => ?_⟩
    obtain ⟨honce, hlast⟩ := each_concat.mp honce
    obtain ⟨hserved, hexhausted, hlate⟩ := hkept honce
    have hlimit : c.retryPolicy.maxAttempts = maxAttempts := hpolicy ▸ rfl
    exact ⟨fun request => hm.served hlast hc.issued hlimit (hserved request),
      hexhausted.concat (hm.exhausted hlast fun request => ⟨_, hserved request⟩),
      hlate.concat (hm.lateIgnored hlast fun request => ⟨_, hserved request⟩)⟩
  · rintro request rfl
    exact hforeign delay request he
  · exact ⟨⟨nofun, rfl, List.nodup_nil, nofun, rfl⟩, rfl,
      fun _ => ⟨fun request => served_new .., Each.nil, Each.nil⟩⟩

/-- Two attempts, of which the first times out and the second fails. The failure of the first comes last. -/
def lateFailure : List (Hosted.Op Event Unit Unit FifoFrontierPolicy Empty) :=
  let failure (n : Nat) : Event := .client (.responseReceived (.error ⟨n⟩ ⟨1⟩ .zero 503 []))
  [.other (.schedule .zero 7 (.client .sendRequest)), .other .pop, .other .pop, .other .pop, .other .pop, .other .pop,
    .other (.schedule .zero 7 (failure 2)), .other .pop, .other (.schedule .zero 7 (failure 1)), .other .pop]

theorem run_failedPermanently_lateFailure : ∃ (h : Hosted (SimpleClient FixedRetryPolicy) Event Unit Unit) (answers : _),
    Machine.run (Hosted.step code 7) ⟨(new [] 8 (.new 1 0)).withTimeout 5, .fresh 0⟩ lateFailure = some (h, answers) ∧
    h.component.metrics.requestsFailedPermanently = 1 ∧ sentFor (Hosted.history answers) ⟨1⟩ = [⟨1⟩, ⟨2⟩] ∧
    endings (Hosted.history answers) = [(⟨1⟩, ⟨1⟩), (⟨1⟩, ⟨2⟩), (⟨1⟩, ⟨1⟩)] ∧
    Each (Exhausted 1) (Hosted.history answers) ∧ Each LateIgnored (Hosted.history answers) := by
  have hforeign : ∀ delay request, .other (.schedule delay 7 (retryOf request)) ∉ lateFailure := by
    intro delay request he
    simp [lateFailure, retryOf] at he
  exact ⟨_, _, rfl, rfl, by decide, by decide, run_failedPermanently 7 [] 8 1 0 5 0 hforeign (by rfl)
    (by decide)⟩

/-- The failure of the attempt that has timed out comes before its retry. -/
def earlyFailure : List (Hosted.Op Event Unit Unit FifoFrontierPolicy Empty) :=
  [.other (.schedule .zero 7 (.client .sendRequest)), .other .pop, .other .pop, .other .pop,
    .other (.schedule .zero 7 (.client (.responseReceived (.error ⟨1⟩ ⟨1⟩ .zero 503 [])))), .other .pop, .other .pop]

/-- The request fails permanently after one attempt of two, and its retry comes to nothing. -/
theorem not_exhausted_earlyFailure : ∃ (h : Hosted (SimpleClient FixedRetryPolicy) Event Unit Unit) (answers : _),
    Machine.run (Hosted.step code 7) ⟨(new [] 8 (.new 1 10)).withTimeout 5, .fresh 0⟩ earlyFailure = some (h, answers) ∧
    h.component.metrics.requestsFailedPermanently = 1 ∧ sentFor (Hosted.history answers) ⟨1⟩ = [⟨1⟩] ∧
    ¬Each (Exhausted 1) (Hosted.history answers) ∧ ¬Each LateIgnored (Hosted.history answers) := by
  refine ⟨_, _, rfl, rfl, by decide, fun h => ?_, fun h => ?_⟩
  · obtain ⟨request, hout, hsent, -⟩ := each_iff.mp h 2 (by decide) (by decide)
    obtain rfl : request = ⟨1⟩ := by
      have hone : [request] = [⟨1⟩] := hout.symm.trans (by decide)
      exact List.head_eq_of_cons_eq hone
    revert hsent
    decide
  · obtain ⟨hactive, -⟩ := each_iff.mp h 2 (by decide) _ rfl (by decide) ⟨[_], _, [], rfl, rfl, by decide⟩
    have hkeys := congrArg AList.keys hactive
    revert hkeys
    decide

end SimpleClient

end DesCartes.Service
