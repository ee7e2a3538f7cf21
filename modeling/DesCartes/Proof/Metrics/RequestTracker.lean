import DesCartes.Framework.HashMap
import DesCartes.Framework.Ledger
import DesCartes.Framework.Machine
import DesCartes.Impl.Metrics.RequestTracker

/-!
# What a tracker knows

A tracker is two ledgers, one of requests and one of attempts: `requestMark` and `attemptMark` are
what a call that returns `Ok` tells them, and a call that returns an error tells them nothing and
changes nothing (`call_error`). An attempt is noted of its request, if that is active, and may
outlive it.

* `call_ok_iff`: when a call succeeds; `Kept.step`: a call; `run_accounted`: any calls.
-/

namespace DesCartes.Metrics.RequestTracker

open Ledger (Mark Recorded latest latest_latest latest_latest_append)
open Service (AttemptStatus Request RequestAttempt RequestAttemptId RequestId RequestStatus)

/-! ## Histories -/

/-- A call, and what it returned. -/
abbrev Event := Call × Except MetricsError Unit

/-- A call, which is recorded. -/
def step (t : RequestTracker) (c : Call) : Option (RequestTracker × Event) := some ((t.call c).1, c, (t.call c).2)

/-- What a call does to the requests. -/
def requestMark : Event → Mark RequestId Request RequestAttemptId (RequestStatus × SimTime)
  | (.startRequest request, .ok ()) => .start request.id request
  | (.startAttempt attempt, .ok ()) => .note attempt.requestId attempt.id
  | (.completeRequest requestId status completedAt, .ok ()) => .finish requestId (status, completedAt)
  | _ => .other

/-- What a call does to the attempts. -/
def attemptMark : Event → Mark RequestAttemptId RequestAttempt Empty (AttemptStatus × SimTime)
  | (.startAttempt attempt, .ok ()) => .start attempt.id attempt
  | (.completeAttempt attemptId status completedAt, .ok ()) => .finish attemptId (status, completedAt)
  | _ => .other

/-- A request, with the attempts that were started for it after it had been started. -/
def withAttempts (request : Request) (attempts : List RequestAttemptId) : Request :=
  { request with attempts := request.attempts ++ attempts }

/-- The active requests are those that were started and not completed since, with their attempts,
and `completed` those that have been completed, in their order. -/
def RecordedRequests (h : List Event) (active : RequestId → Option Request) (completed : List Request) : Prop :=
  Recorded withAttempts (fun request c => request.complete c.2 c.1) (h.map requestMark) active completed

/-- As for the requests. -/
def RecordedAttempts (h : List Event) (active : RequestAttemptId → Option RequestAttempt)
    (completed : List RequestAttempt) : Prop :=
  Recorded (fun attempt _ => attempt) (fun attempt c => attempt.complete c.2 c.1) (h.map attemptMark) active completed

/-- What a tracker has to know after a history, with a limit for what it keeps of the completed. -/
structure Kept (maxCompleted : Nat) (t : RequestTracker) (h : List Event) : Prop where
  limit : t.maxCompleted = maxCompleted
  requests : ∃ completed, RecordedRequests h t.activeRequests.lookup completed ∧ t.completedRequests = latest maxCompleted completed
  attempts : ∃ completed, RecordedAttempts h t.activeAttempts.lookup completed ∧ t.completedAttempts = latest maxCompleted completed

variable {maxCompleted : Nat} {t : RequestTracker} {h : List Event} {c : Call}

/-! ## One call -/

theorem withAttempts_nil (request : Request) : withAttempts request [] = request := by
  rw [withAttempts, List.append_nil]

theorem withAttempts_append (request : Request) (attempts : List RequestAttemptId)
    (attemptId : RequestAttemptId) :
    withAttempts request (attempts ++ [attemptId]) =
      (withAttempts request attempts).addAttempt attemptId := by
  rw [withAttempts, withAttempts, Request.addAttempt, List.append_assoc]

theorem enforceLimit_eq {α : Type} {limit : Nat} (hlimit : limit ≠ 0) (completed : List α) :
    enforceLimit limit completed = latest limit completed := by
  rw [enforceLimit, latest, if_neg hlimit]
  split
  · rfl
  · rename_i hle
    rw [Nat.sub_eq_zero_of_le (Nat.le_of_not_lt hle), List.drop_zero]

theorem enforceCompletedLimit_eq (t : RequestTracker) : t.enforceCompletedLimit =
    { t with
      completedRequests := latest t.maxCompleted t.completedRequests
      completedAttempts := latest t.maxCompleted t.completedAttempts } := by
  rw [enforceCompletedLimit]
  split
  · rename_i hzero
    rw [latest, latest, if_pos hzero, if_pos hzero]
  · rename_i hlimit
    rw [enforceLimit_eq hlimit, enforceLimit_eq hlimit]

/-- A call that returns an error changes nothing. -/
theorem call_error {e : MetricsError} (herror : (t.call c).2 = .error e) : (t.call c).1 = t := by
  cases c with
  | startRequest request =>
    rw [call, startRequest] at herror ⊢
    split at herror
    · rename_i hmem
      rw [if_pos hmem]
    · cases herror
  | startAttempt attempt =>
    rw [call, startAttempt] at herror ⊢
    split at herror
    · rename_i hmem
      rw [if_pos hmem]
    · cases herror
  | completeAttempt attemptId status completedAt =>
    rw [call, completeAttempt] at herror ⊢
    split at herror
    · rfl
    · cases herror
  | completeRequest requestId status completedAt =>
    rw [call, completeRequest] at herror ⊢
    split at herror
    · rfl
    · cases herror

/-- An item can be started under an id that is not active, and completed under one that is. -/
def Accepts (t : RequestTracker) : Call → Prop
  | .startRequest request => request.id ∉ t.activeRequests
  | .startAttempt attempt => attempt.id ∉ t.activeAttempts
  | .completeAttempt attemptId _ _ => attemptId ∈ t.activeAttempts
  | .completeRequest requestId _ _ => requestId ∈ t.activeRequests

theorem call_ok_iff (t : RequestTracker) (c : Call) : (t.call c).2 = .ok () ↔ t.Accepts c := by
  cases c with
  | startRequest request =>
    rw [call, startRequest, Accepts]
    split
    · rename_i hmem
      exact iff_of_false (by rintro ⟨⟩) (not_not_intro hmem)
    · rename_i hnone
      exact iff_of_true rfl hnone
  | startAttempt attempt =>
    rw [call, startAttempt, Accepts]
    split
    · rename_i hmem
      exact iff_of_false (by rintro ⟨⟩) (not_not_intro hmem)
    · rename_i hnone
      exact iff_of_true rfl hnone
  | completeAttempt attemptId status completedAt =>
    rw [call, completeAttempt, Accepts]
    split
    · rename_i hnone
      exact iff_of_false (by rintro ⟨⟩) (AList.lookup_eq_none.mp hnone)
    · rename_i attempt hsome
      exact iff_of_true rfl (AList.lookup_isSome.mp (by rw [hsome]; rfl))
  | completeRequest requestId status completedAt =>
    rw [call, completeRequest, Accepts]
    split
    · rename_i hnone
      exact iff_of_false (by rintro ⟨⟩) (AList.lookup_eq_none.mp hnone)
    · rename_i request hsome
      exact iff_of_true rfl (AList.lookup_isSome.mp (by rw [hsome]; rfl))

theorem kept_new (maxCompleted : Nat) : Kept maxCompleted (.withMaxCompleted maxCompleted) [] := by
  have hlatest : ∀ {α : Type}, ([] : List α) = latest maxCompleted [] := by
    intro α
    rw [latest, List.drop_nil, ite_self]
  exact ⟨rfl, ⟨[], Ledger.recorded_nil, hlatest⟩, ⟨[], Ledger.recorded_nil, hlatest⟩⟩

/-- An event that does nothing to the requests. -/
theorem RecordedRequests.other {active : RequestId → Option Request} {completed : List Request}
    (h₀ : RecordedRequests h active completed) {e : Event} (he : requestMark e = .other) :
    RecordedRequests (h ++ [e]) active completed := by
  rw [RecordedRequests, List.map_append, List.map_singleton, he]
  exact Recorded.other h₀

/-- An event that does nothing to the attempts. -/
theorem RecordedAttempts.other {active : RequestAttemptId → Option RequestAttempt}
    {completed : List RequestAttempt} (h₀ : RecordedAttempts h active completed) {e : Event}
    (he : attemptMark e = .other) : RecordedAttempts (h ++ [e]) active completed := by
  rw [RecordedAttempts, List.map_append, List.map_singleton, he]
  exact Recorded.other h₀

theorem Kept.error (h₀ : Kept maxCompleted t h) (c : Call) (e : MetricsError) :
    Kept maxCompleted t (h ++ [(c, .error e)]) := by
  obtain ⟨hlimit, ⟨requests, hrequests, hcompleted⟩, ⟨attempts, hattempts, hcompleted'⟩⟩ := h₀
  refine ⟨hlimit, ⟨requests, hrequests.other ?_, hcompleted⟩, ⟨attempts, hattempts.other ?_, hcompleted'⟩⟩
  · cases c <;> rfl
  · cases c <;> rfl

theorem Kept.startRequest (h₀ : Kept maxCompleted t h) {request : Request}
    (hnone : request.id ∉ t.activeRequests) :
    Kept maxCompleted { t with activeRequests := t.activeRequests.insert request.id request }
      (h ++ [(.startRequest request, .ok ())]) := by
  obtain ⟨hlimit, ⟨requests, hrequests, hcompleted⟩, ⟨attempts, hattempts, hcompleted'⟩⟩ := h₀
  refine ⟨hlimit, ⟨requests, ?_, hcompleted⟩, ⟨attempts, hattempts.other rfl, hcompleted'⟩⟩
  have hstart := Recorded.start hrequests (AList.lookup_eq_none.mpr hnone) request
  rw [withAttempts_nil, ← AList.lookup_insert_eq_update] at hstart
  rw [RecordedRequests, List.map_append]
  exact hstart

theorem Kept.startAttempt (h₀ : Kept maxCompleted t h) {attempt : RequestAttempt}
    (hnone : attempt.id ∉ t.activeAttempts) :
    Kept maxCompleted (t.startAttempt attempt).1 (h ++ [(.startAttempt attempt, .ok ())]) := by
  obtain ⟨hlimit, ⟨requests, hrequests, hcompleted⟩, ⟨attempts, hattempts, hcompleted'⟩⟩ := h₀
  have hnote := Recorded.note hrequests withAttempts_append attempt.requestId attempt.id
  have hstart := Recorded.start hattempts (AList.lookup_eq_none.mpr hnone) attempt
  have hactive : (t.startAttempt attempt).1.activeRequests.lookup =
      Function.update t.activeRequests.lookup attempt.requestId
        ((t.activeRequests.lookup attempt.requestId).map fun request => request.addAttempt attempt.id) := by
    rw [RequestTracker.startAttempt, if_neg hnone]
    cases hlookup : t.activeRequests.lookup attempt.requestId with
    | none =>
      -- the request is not active, and nothing is noted
      have hself := Function.update_eq_self attempt.requestId fun id => t.activeRequests.lookup id
      simp only [hlookup] at hself
      exact hself.symm
    | some request => exact AList.lookup_insert_eq_update ..
  rw [← hactive] at hnote
  rw [← AList.lookup_insert_eq_update] at hstart
  rw [RequestTracker.startAttempt, if_neg hnone] at hnote ⊢
  refine ⟨hlimit, ⟨requests, ?_, hcompleted⟩, ⟨attempts, ?_, hcompleted'⟩⟩
  · rw [RecordedRequests, List.map_append]
    exact hnote
  · rw [RecordedAttempts, List.map_append]
    exact hstart

theorem Kept.completeAttempt (h₀ : Kept maxCompleted t h) {attemptId : RequestAttemptId}
    {attempt : RequestAttempt} (hsome : t.activeAttempts.lookup attemptId = some attempt)
    (status : AttemptStatus) (completedAt : SimTime) :
    Kept maxCompleted
      (enforceCompletedLimit { t with
        activeAttempts := t.activeAttempts.erase attemptId
        completedAttempts := t.completedAttempts ++ [attempt.complete completedAt status] })
      (h ++ [(.completeAttempt attemptId status completedAt, .ok ())]) := by
  obtain ⟨hlimit, ⟨requests, hrequests, hcompleted⟩, ⟨attempts, hattempts, hcompleted'⟩⟩ := h₀
  have hfinish := Recorded.finish hattempts hsome (status, completedAt)
  rw [← AList.lookup_erase_eq_update] at hfinish
  rw [enforceCompletedLimit_eq]
  refine ⟨hlimit, ⟨requests, hrequests.other rfl, ?_⟩,
    ⟨attempts ++ [attempt.complete completedAt status], ?_, ?_⟩⟩
  · rw [hlimit, hcompleted, latest_latest]
  · rw [RecordedAttempts, List.map_append]
    exact hfinish
  · rw [hlimit, hcompleted', latest_latest_append]

theorem Kept.completeRequest (h₀ : Kept maxCompleted t h) {requestId : RequestId}
    {request : Request} (hsome : t.activeRequests.lookup requestId = some request)
    (status : RequestStatus) (completedAt : SimTime) :
    Kept maxCompleted
      (enforceCompletedLimit { t with
        activeRequests := t.activeRequests.erase requestId
        completedRequests := t.completedRequests ++ [request.complete completedAt status] })
      (h ++ [(.completeRequest requestId status completedAt, .ok ())]) := by
  obtain ⟨hlimit, ⟨requests, hrequests, hcompleted⟩, ⟨attempts, hattempts, hcompleted'⟩⟩ := h₀
  have hfinish := Recorded.finish hrequests hsome (status, completedAt)
  rw [← AList.lookup_erase_eq_update] at hfinish
  rw [enforceCompletedLimit_eq]
  refine ⟨hlimit, ⟨requests ++ [request.complete completedAt status], ?_, ?_⟩,
    ⟨attempts, hattempts.other rfl, ?_⟩⟩
  · rw [RecordedRequests, List.map_append]
    exact hfinish
  · rw [hlimit, hcompleted, latest_latest_append]
  · rw [hlimit, hcompleted', latest_latest]

theorem Kept.step (h₀ : Kept maxCompleted t h) (c : Call) :
    Kept maxCompleted (t.call c).1 (h ++ [(c, (t.call c).2)]) := by
  cases hresult : (t.call c).2 with
  | error e =>
    rw [call_error hresult]
    exact h₀.error c e
  | ok _ =>
    cases c with
    | startRequest request =>
      rw [call, RequestTracker.startRequest] at hresult ⊢
      split at hresult
      · cases hresult
      · rename_i hnone
        rw [if_neg hnone]
        exact h₀.startRequest hnone
    | startAttempt attempt =>
      have hnone : attempt.id ∉ t.activeAttempts := by
        intro hmem
        rw [call, RequestTracker.startAttempt, if_pos hmem] at hresult
        cases hresult
      exact h₀.startAttempt hnone
    | completeAttempt attemptId status completedAt =>
      rw [call, RequestTracker.completeAttempt] at hresult ⊢
      split at hresult
      · cases hresult
      · rename_i attempt hsome
        exact h₀.completeAttempt hsome status completedAt
    | completeRequest requestId status completedAt =>
      rw [call, RequestTracker.completeRequest] at hresult ⊢
      split at hresult
      · cases hresult
      · rename_i request hsome
        exact h₀.completeRequest hsome status completedAt

/-! ## Any calls -/

/-- The item with the id is active or was completed exactly once, but not both, if only one was
started under the id. -/
def OnceIfFresh {ι α β γ δ : Type} [DecidableEq ι] (marks : List (Mark ι α β γ)) (active : ι → Option δ) : Prop :=
  ∀ id, marks.countP (Mark.starts id) = 1 →
    ((active id).isSome = true ∧ marks.countP (Mark.finishes id) = 0) ∨ (active id = none ∧ marks.countP (Mark.finishes id) = 1)

theorem onceIfFresh_of_recorded {ι α β γ δ : Type} [DecidableEq ι] {value : α → List β → δ}
    {close : δ → γ → δ} {marks : List (Mark ι α β γ)} {active : ι → Option δ} {completed : List δ}
    (h₀ : Recorded value close marks active completed) :
    OnceIfFresh marks active := by
  intro id hfresh
  have hbalance := h₀.balance id
  cases hactive : active id with
  | none =>
    simp only [hactive, Option.isSome_none, Bool.false_eq_true, if_false] at hbalance
    exact .inr ⟨rfl, by omega⟩
  | some d =>
    simp only [hactive, Option.isSome_some, if_true] at hbalance
    exact .inl ⟨rfl, by omega⟩

/-- After any calls, the tracker knows what the history says; an item with a fresh id is active or
was completed once; a further call succeeds exactly if it starts an item under an id that is not
active, or completes one under an id that is; and if it returns an error it changes nothing. -/
theorem run_accounted (maxCompleted : Nat) (calls : List Call) :
    ∃ t h, Machine.run step (.withMaxCompleted maxCompleted) calls = some (t, h) ∧ Kept maxCompleted t h ∧
      OnceIfFresh (h.map requestMark) t.activeRequests.lookup ∧ OnceIfFresh (h.map attemptMark) t.activeAttempts.lookup ∧
      (∀ c, (t.call c).2 = .ok () ↔ t.Accepts c) ∧ ∀ c e, (t.call c).2 = .error e → (t.call c).1 = t := by
  have hreturns : ∀ t c, ∃ t' e, step t c = some (t', e) := fun t c => ⟨_, _, rfl⟩
  obtain ⟨t, h, hrun⟩ := Machine.exists_run hreturns (.withMaxCompleted maxCompleted) calls
  have hkept : Kept maxCompleted t h := by
    refine Machine.run_history (P := Kept maxCompleted) (fun t c t' e h h₀ hstep => ?_)
      (kept_new maxCompleted) hrun
    cases hstep
    exact h₀.step c
  obtain ⟨requests, hrequests, -⟩ := hkept.requests
  obtain ⟨attempts, hattempts, -⟩ := hkept.attempts
  exact ⟨t, h, hrun, hkept, onceIfFresh_of_recorded hrequests, onceIfFresh_of_recorded hattempts,
    call_ok_iff t, fun c e => call_error⟩

end DesCartes.Metrics.RequestTracker
