import DesCartes.Impl.Tower.Retry
import DesCartes.Proof.Tower.Service

/-!
# The identity of requests that are retried

The first attempt of a call has an id of the service, or the one that its request has with it; the
retries have the id that the first one of them takes from another counter, if the request has none.
So the attempts of a call have one id exactly when this counter is where that of the service was
(`Consistent`).

* `Kept.step`: what is known of the attempts of each call;
* `run_identified`: any run.
-/

namespace DesCartes.Tower.DesRetry

open DesService (Mailbox getRoot)
open Service (ConstantServiceTime RequestAttempt RequestId ServiceTimeDistribution)

variable {P χ δ τ ρ φ σ w : Type}

/-- The call and the attempt that an output is about. -/
def Output.attempt? : Output σ → Option (Nat × RequestAttempt)
  | .called i _ _ attempt => some (i, attempt)
  | .retried i _ _ attempt => some (i, attempt)
  | _ => none

/-- The attempts so far, each with the call that it was made for. -/
def attempts (answers : List (Output σ)) : List (Nat × RequestAttempt) := answers.filterMap Output.attempt?

/-- The attempts for the call `i`. -/
def attemptsOf (i : Nat) (answers : List (Output σ)) : List RequestAttempt :=
  ((attempts answers).filter fun x => x.1 = i).map Prod.snd

/-- Every call has one id and numbers its attempts. -/
structure Identified (answers : List (Output σ)) : Prop where
  same : ∀ x ∈ attempts answers, ∀ y ∈ attempts answers, x.1 = y.1 → x.2.requestId = y.2.requestId
  numbers : ∀ i, (attemptsOf i answers).map (·.attemptNumber) = List.range' 1 (attemptsOf i answers).length
  distinct : ((attempts answers).map fun x => x.2.id).Nodup
  apart : ∀ x ∈ attempts answers, ∀ y ∈ attempts answers, x.2.requestId = y.2.requestId → x.1 = y.1

/-- The id of the first attempt for a request, where the counter of the service is `nextRequestId`. -/
def ownId (request : Request) (nextRequestId : Nat) : RequestId :=
  request.retryMetadata.elim ⟨nextRequestId⟩ RetryMetadata.originalRequestId

/-- Metadata that a request has with it is that of a first attempt, with an id of no other call.
Where it has none, the first retry takes its id when the counter of these is where that of the
service was. -/
structure Consistent (answers : List (Output σ)) : Prop where
  numbered : ∀ i request n a, .called i request n a ∈ answers → ∀ m ∈ request.retryMetadata, m.attemptNumber = 1
  apart : ∀ i request n a, .called i request n a ∈ answers → ∀ m ∈ request.retryMetadata,
    ∀ j request' n' a', .called j request' n' a' ∈ answers → j ≠ i → m.originalRequestId ≠ ownId request' n'
  retried : ∀ i request n a k b, .called i request n a ∈ answers → .retried i none k b ∈ answers → k = n

/-! ## Histories -/

variable {answers : List (Output σ)} {o : Output σ}

theorem Consistent.left (h : Consistent (answers ++ [o])) : Consistent answers where
  numbered i request n a ha := h.numbered i request n a (List.mem_append_left _ ha)
  apart i request n a ha m hm j request' n' a' hb :=
    h.apart i request n a (List.mem_append_left _ ha) m hm j request' n' a'
    (List.mem_append_left _ hb)
  retried i request n a k b ha hb := h.retried i request n a k b (List.mem_append_left _ ha)
    (List.mem_append_left _ hb)

theorem attempts_snoc : attempts (answers ++ [o]) = attempts answers ++ o.attempt?.toList := by
  cases h : o.attempt? <;> simp [attempts, h]

theorem attemptsOf_snoc_of_ne {i : Nat} (h : ∀ x ∈ o.attempt?, x.1 ≠ i) :
    attemptsOf i (answers ++ [o]) = attemptsOf i answers := by
  rw [attemptsOf, attemptsOf, attempts_snoc]
  cases hx : o.attempt? with
  | none => simp
  | some x =>
    have hne : x.1 ≠ i := h x hx
    simp [hne]

theorem attemptsOf_snoc_other {i j : Nat} {a : RequestAttempt} (h : o.attempt? = some (i, a)) (hj : j ≠ i) :
    attemptsOf j (answers ++ [o]) = attemptsOf j answers := by
  refine attemptsOf_snoc_of_ne fun x hx => ?_
  rw [h] at hx
  cases hx
  exact hj.symm

theorem attemptsOf_snoc {i : Nat} {a : RequestAttempt} (h : o.attempt? = some (i, a)) :
    attemptsOf i (answers ++ [o]) = attemptsOf i answers ++ [a] := by
  rw [attemptsOf, attemptsOf, attempts_snoc, h, Option.toList_some, List.filter_append, List.map_append,
    List.filter_cons_of_pos (by simp), List.filter_nil]
  rfl

theorem mem_attemptsOf {i : Nat} {a : RequestAttempt} :
    a ∈ attemptsOf i answers ↔ (i, a) ∈ attempts answers := by
  simp [attemptsOf]

theorem mem_attempts_called {i n : Nat} {request : Request} {a : RequestAttempt}
    (h : .called i request n a ∈ answers) :
    (i, a) ∈ attempts answers :=
  List.mem_filterMap.mpr ⟨_, h, rfl⟩

theorem mem_attempts_retried {i k : Nat} {m : Option RetryMetadata} {a : RequestAttempt}
    (h : .retried i m k a ∈ answers) :
    (i, a) ∈ attempts answers :=
  List.mem_filterMap.mpr ⟨_, h, rfl⟩

/-! ## What an operation does -/

/-- The number of the first attempt for a request. -/
def ownNumber (request : Request) : Nat := request.retryMetadata.elim 1 RetryMetadata.attemptNumber

/-- What the handle makes of a request. -/
structure Attempted (h h' : TowerSchedulerHandle w) (request : Request) (a : RequestAttempt) : Prop where
  id : a.id = ⟨h.nextAttemptId⟩
  requestId : a.requestId = ownId request h.nextRequestId
  attemptNumber : a.attemptNumber = ownNumber request
  nextAttemptId : h'.nextAttemptId = h.nextAttemptId + 1
  le_nextRequestId : h.nextRequestId ≤ h'.nextRequestId
  lt_nextRequestId : request.retryMetadata = none → h.nextRequestId < h'.nextRequestId

theorem attempted_createRequestAttempt (h : TowerSchedulerHandle w) (request : Request) :
    Attempted h (h.createRequestAttempt request).2 request (h.createRequestAttempt request).1 := by
  unfold TowerSchedulerHandle.createRequestAttempt Metadata.getRetryMetadata
  cases hm : request.retryMetadata with
  | none =>
    exact ⟨rfl, by rw [ownId, hm]; rfl, by rw [ownNumber, hm]; rfl, rfl, Nat.le_succ _,
      fun _ => Nat.lt_succ_self _⟩
  | some m =>
    exact ⟨rfl, by rw [ownId, hm]; rfl, by rw [ownNumber, hm]; rfl, rfl, le_rfl,
      fun h => by cases hm.symm.trans h⟩

section
variable [Oneshot χ] {s s' : DesService χ δ τ ρ w}

theorem attempted_call {inside : Bool} {request : Request} {a : RequestAttempt}
    (h : s.call inside request = some (s', a)) :
    Attempted s.handle s'.handle request a := by
  obtain ⟨s₁, hs₁, h⟩ := Option.map_eq_some_iff.mp h
  cases h
  have hattempted := attempted_createRequestAttempt s.handle request
  obtain ⟨-, hhandle, -⟩ := DesService.scheduleRequest_spec hs₁
  rw [hhandle]
  exact ⟨hattempted.id, hattempted.requestId, hattempted.attemptNumber, hattempted.nextAttemptId,
    hattempted.le_nextRequestId,
    hattempted.lt_nextRequestId⟩

/-- The counters of a service only grow. -/
theorem counters_step [ServiceTimeDistribution δ] [EventFrontierPolicy φ] [StatusCode σ]
    {op : DesService.Op τ ρ φ w} {a : DesService.Answer σ w} (h : s.step op = some (s', a)) :
    s.handle.nextRequestId ≤ s'.handle.nextRequestId ∧
      s.handle.nextAttemptId ≤ s'.handle.nextAttemptId := by
  obtain ⟨⟨s₁, output⟩, hperform, h₁⟩ := Option.map_eq_some_iff.mp h
  cases h₁
  cases DesService.effect hperform with
  | keep _ hhandle => rw [hhandle]; exact ⟨le_rfl, le_rfl⟩
  | ready _ hs' => rw [hs']; exact ⟨le_rfl, le_rfl⟩
  | refuse _ hs' => rw [hs']; exact ⟨le_rfl, le_rfl⟩
  | call attempt handle request hrequest _ hhandle =>
    have hattempted := attempted_createRequestAttempt s.handle request
    rw [hrequest] at hattempted
    rw [hhandle]
    exact ⟨hattempted.le_nextRequestId, hattempted.nextAttemptId.symm ▸ Nat.le_succ _⟩
  | poll i receiver _ hs' => rw [hs', (DesService.poll_keep σ s i receiver).2.1]; exact ⟨le_rfl, le_rfl⟩
  | drop _ hs' => rw [hs']; exact ⟨le_rfl, le_rfl⟩
  | serve _ _ _ _ _ _ hhandle => rw [hhandle]; exact ⟨le_rfl, le_rfl⟩
  | route _ _ _ hhandle => rw [hhandle]; exact ⟨le_rfl, le_rfl⟩
  | ignore _ _ _ hhandle => rw [hhandle]; exact ⟨le_rfl, le_rfl⟩

end

/-- The metadata of the next attempt, when the counter of the ids of retries is `k`. -/
def nextMetadata (k : Nat) (m : Option RetryMetadata) : RetryMetadata := (m.getD (.new ⟨k⟩)).nextAttempt

/-- What an operation can do, and what it returns. -/
inductive Effect (s s' : DesRetry P χ δ τ ρ w) : Output σ → Prop
  | quiet (output : Output σ) : output.attempt? = none → s.service.handle.nextRequestId ≤ s'.service.handle.nextRequestId →
    s.service.handle.nextAttemptId ≤ s'.service.handle.nextAttemptId → s'.futures.next = s.futures.next →
    (∀ i f', s'.futures.get i = some f' → ∃ f, s.futures.get i = some f ∧ f'.retryMetadata = f.retryMetadata) →
    Effect s s' output
  | called (request : Request) (a : RequestAttempt) (f : DesRetryFuture P) :
    Attempted s.service.handle s'.service.handle request a → f.retryMetadata = request.retryMetadata →
    s'.futures = s.futures.insert f → Effect s s' (.called s.futures.next request s.service.handle.nextRequestId a)
  | retried (i : Nat) (f f' : DesRetryFuture P) (request : Request) (a : RequestAttempt) :
    s.futures.get i = some f → s'.futures = s.futures.set i f' →
    f'.retryMetadata = some (nextMetadata s.retryAttemptId f.retryMetadata) →
    request.retryMetadata = some (nextMetadata s.retryAttemptId f.retryMetadata) →
    Attempted s.service.handle s'.service.handle request a →
    Effect s s' (.retried i f.retryMetadata s.retryAttemptId a)

variable {s s' : DesRetry P χ δ τ ρ w}

/-- Only a future changes, and it keeps its metadata. -/
theorem Effect.of_set {i : Nat} {f f' : DesRetryFuture P} (hf : s.futures.get i = some f)
    (hf' : f'.retryMetadata = f.retryMetadata) {output : Output σ} (ho : output.attempt? = none) :
    Effect s { s with futures := s.futures.set i f' } output := by
  refine .quiet output ho le_rfl le_rfl rfl fun j g hg => ?_
  rcases (Table.get_set_eq_some hf).mp hg with ⟨rfl, rfl⟩ | ⟨-, hg⟩
  · exact ⟨f, hf, hf'⟩
  · exact ⟨g, hg, rfl⟩

theorem createRetryRequest_spec (f : DesRetryFuture P) (k : Nat) :
    (f.createRetryRequest k).1.retryMetadata = some (nextMetadata k f.retryMetadata) ∧
      (f.createRetryRequest k).2.1.retryMetadata = some (nextMetadata k f.retryMetadata) := by
  cases hm : f.retryMetadata <;> simp [DesRetryFuture.createRetryRequest, Metadata.createRetryRequest,
    Metadata.addRetryMetadata,
    nextMetadata, hm]

variable [Oneshot χ] [TowerPolicy P σ]

theorem effect_poll {i : Nat} {f : DesRetryFuture P} {inside : Bool}
    {inner : Poll (Except ServiceError (HttpResponse σ))} {o : Output σ} (hf : s.futures.get i = some f)
    (h : s.poll i f inside inner = some (s', o)) : Effect s s' o := by
  have hsame : ∀ output : Output σ, output.attempt? = none → Effect s s output := fun output ho =>
    .quiet output ho le_rfl le_rfl rfl fun j g hg => ⟨g, hg, rfl⟩
  have hset : ∀ f' (output : Output σ), f'.retryMetadata = f.retryMetadata → output.attempt? = none →
      Effect s { s with futures := s.futures.set i f' } output := fun f' output hf' ho => .of_set hf hf' ho
  unfold poll at h
  split at h
  · -- the inner future is polled
    split at h <;> cases h
    · exact hset _ _ rfl rfl
    · exact hset _ _ rfl rfl
    · exact hsame _ rfl
  · -- the policy is asked
    split at h
    split at h <;> cases h
    · exact hset _ _ rfl rfl
    · exact hset _ _ rfl rfl
  · split at h
    · obtain ⟨⟨service, attempt⟩, hcall, h⟩ := Option.map_eq_some_iff.mp h
      cases h
      obtain ⟨hrequest, hfuture⟩ := createRetryRequest_spec f s.retryAttemptId
      exact .retried i f _ _ attempt hf rfl hfuture hrequest (attempted_call hcall)
    · cases h
      exact hset _ _ rfl rfl
  · cases h
    exact hsame _ rfl

theorem effect [ServiceTimeDistribution δ] [EventFrontierPolicy φ] [StatusCode σ] {op : Op τ ρ φ σ w} {o : Output σ}
    (h : s.step op = some (s', o)) :
    Effect s s' o := by
  cases op with
  | service op =>
    obtain ⟨⟨service, a⟩, hstep, h⟩ := Option.map_eq_some_iff.mp h
    cases h
    obtain ⟨hrequest, hattempt⟩ := counters_step hstep
    exact .quiet .done rfl hrequest hattempt rfl fun i f hf => ⟨f, hf, rfl⟩
  | takeId =>
    cases h
    exact .quiet .done rfl le_rfl le_rfl rfl fun i f hf => ⟨f, hf, rfl⟩
  | call inside request =>
    obtain ⟨⟨service, a⟩, hcall, h⟩ := Option.map_eq_some_iff.mp h
    cases h
    exact .called request a _ (attempted_call hcall) rfl rfl
  | poll i inside inner =>
    obtain ⟨f, hf, h⟩ := Option.bind_eq_some_iff.mp h
    exact effect_poll hf h
  | drop i =>
    obtain ⟨f, hf, h⟩ := Option.map_eq_some_iff.mp h
    cases h
    exact .quiet .done rfl le_rfl le_rfl rfl fun j g hg => ⟨g, (Table.get_erase_eq_some.mp hg).2, rfl⟩

/-! ## The attempts of a call -/

/-- All the attempts have the id, and they are numbered. -/
structure Chain (id : RequestId) (l : List RequestAttempt) : Prop where
  ids : ∀ a ∈ l, a.requestId = id
  numbers : l.map (·.attemptNumber) = List.range' 1 l.length

theorem chain_singleton {a : RequestAttempt} (h : a.attemptNumber = 1) : Chain a.requestId [a] :=
  ⟨List.forall_mem_singleton.mpr rfl, by rw [List.map_singleton, h]; rfl⟩

theorem Chain.snoc {id : RequestId} {l : List RequestAttempt} {a : RequestAttempt} (hl : Chain id l)
    (hid : a.requestId = id) (hnumber : a.attemptNumber = l.length + 1) : Chain id (l ++ [a]) := by
  refine ⟨List.forall_mem_append.mpr ⟨hl.ids, List.forall_mem_singleton.mpr hid⟩, ?_⟩
  rw [List.map_append, List.map_singleton, hl.numbers, hnumber, List.length_append,
    List.length_singleton, List.range'_concat,
    Nat.one_mul, Nat.add_comm 1]

/-- The last one of a chain has its length for its number. -/
theorem Chain.last {id : RequestId} {l : List RequestAttempt} {a : RequestAttempt} (h : Chain id (l ++ [a])) :
    a.requestId = id ∧ a.attemptNumber = l.length + 1 := by
  refine ⟨h.ids a (List.mem_append_right _ List.mem_cons_self), ?_⟩
  have hnumbers := h.numbers
  rw [List.map_append, List.map_singleton, List.length_append, List.length_singleton,
    List.range'_concat, Nat.one_mul,
    Nat.add_comm 1] at hnumbers
  exact (List.append_inj' hnumbers rfl).2 |> List.singleton_inj.mp

/-- What the metadata of a future says of its attempts. -/
def Knows (m : Option RetryMetadata) (l : List RequestAttempt) : Prop :=
  match m with
  | none => ∃ a, l = [a]
  | some m => ∃ l' a, l = l' ++ [a] ∧ a.requestId = m.originalRequestId ∧ a.attemptNumber = m.attemptNumber

theorem Knows.exists_mem {m : Option RetryMetadata} {l : List RequestAttempt} (h : Knows m l) :
    ∃ a, a ∈ l := by
  cases m with
  | none =>
    obtain ⟨a, ha⟩ := h
    exact ⟨a, ha ▸ List.mem_cons_self⟩
  | some m =>
    obtain ⟨l', a, ha, -⟩ := h
    exact ⟨a, ha ▸ List.mem_append_right _ List.mem_cons_self⟩

/-- A retry goes on with the chain, where the id that the first one takes is that of the chain. -/
theorem Chain.retry {m : Option RetryMetadata} {k : Nat} {id : RequestId} {l : List RequestAttempt}
    {a : RequestAttempt} (h : Chain id l) (hknows : Knows m l)
    (hid : a.requestId = (nextMetadata k m).originalRequestId)
    (hnumber : a.attemptNumber = (nextMetadata k m).attemptNumber) (hfirst : m = none → id = ⟨k⟩) :
    Chain id (l ++ [a]) := by
  cases m with
  | none =>
    obtain ⟨c, hl⟩ := hknows
    refine h.snoc ?_ (by rw [hnumber, hl]; rfl)
    rw [hid, hfirst rfl]
    rfl
  | some m =>
    obtain ⟨l, c, rfl, hcid, hcnumber⟩ := hknows
    obtain ⟨hlast, hlength⟩ := h.last
    refine h.snoc ?_ ?_
    · rw [hid, ← hlast, hcid]
      rfl
    · rw [hnumber, List.length_append, List.length_singleton, ← hlength, hcnumber]
      rfl

/-- What holds after any operations. -/
structure Kept (s : DesRetry P χ δ τ ρ w) (answers : List (Output σ)) : Prop where
  fresh : ∀ x ∈ attempts answers, x.1 < s.futures.next ∧ x.2.id.id < s.service.handle.nextAttemptId
  ids_nodup : ((attempts answers).map fun x => x.2.id).Nodup
  called : ∀ i request n a, .called i request n a ∈ answers → (attemptsOf i answers).head? = some a ∧
    a.requestId = ownId request n ∧ a.attemptNumber = ownNumber request ∧
    (request.retryMetadata = none → n < s.service.handle.nextRequestId)
  call_unique : ∀ i request n a j request' n' a', .called i request n a ∈ answers → .called j request' n' a' ∈ answers →
    (i = j ∨ request.retryMetadata = none ∧ request'.retryMetadata = none ∧ n = n') → i = j ∧ request = request' ∧ n = n'
  made : ∀ x ∈ attempts answers, ∃ request n a, .called x.1 request n a ∈ answers
  retried : ∀ i k b, .retried i none k b ∈ answers → b.requestId = ⟨k⟩ ∧
    ∀ request n a, .called i request n a ∈ answers → request.retryMetadata = none
  futures : ∀ i f, s.futures.get i = some f → Knows f.retryMetadata (attemptsOf i answers) ∧
    (f.retryMetadata = none → ∀ request n a, .called i request n a ∈ answers → request.retryMetadata = none)
  chains : Consistent answers → ∀ i request n a, .called i request n a ∈ answers → Chain (ownId request n) (attemptsOf i answers)

omit [Oneshot χ] [TowerPolicy P σ] in
theorem kept_new (policy : P) (service : DesService χ δ τ ρ w) (taken : Nat) :
    Kept (new policy service taken) ([] : List (Output σ)) := by
  refine ⟨nofun, List.nodup_nil, fun _ _ _ _ h => ?_, fun _ _ _ _ _ _ _ _ h => ?_, nofun,
    fun _ _ _ h => ?_, fun _ _ h => ?_,
    fun _ _ _ _ _ h => ?_⟩ <;> cases h

theorem mem_called_snoc {i m : Nat} {request : Request} {a : RequestAttempt} {j : Nat} {r : Request}
    {n : Nat} {b : RequestAttempt}
    (hc : .called j r n b ∈ answers ++ [Output.called i request m a]) :
    .called j r n b ∈ answers ∨ j = i ∧ r = request ∧ n = m ∧ b = a := by
  refine (List.mem_append.mp hc).imp_right fun hc => ?_
  cases List.mem_singleton.mp hc
  exact ⟨rfl, rfl, rfl, rfl⟩

theorem mem_snoc_of_quiet {x : Output σ} (ho : o.attempt? = none) (hx : x.attempt?.isSome) :
    x ∈ answers ++ [o] ↔ x ∈ answers := by
  rw [List.mem_append, List.mem_singleton, or_iff_left]
  rintro rfl
  rw [ho] at hx
  cases hx

omit [Oneshot χ] [TowerPolicy P σ] in
theorem Kept.quiet (h : Kept s answers) (ho : o.attempt? = none)
    (hrequest : s.service.handle.nextRequestId ≤ s'.service.handle.nextRequestId)
    (hattempt : s.service.handle.nextAttemptId ≤ s'.service.handle.nextAttemptId)
    (hnext : s'.futures.next = s.futures.next)
    (hfutures : ∀ i f', s'.futures.get i = some f' → ∃ f,
      s.futures.get i = some f ∧ f'.retryMetadata = f.retryMetadata) :
    Kept s' (answers ++ [o]) := by
  have hattempts : attempts (answers ++ [o]) = attempts answers := by
    rw [attempts_snoc, ho, Option.toList_none, List.append_nil]
  have hof : ∀ i, attemptsOf i (answers ++ [o]) = attemptsOf i answers :=
    fun i => by rw [attemptsOf, hattempts, attemptsOf]
  have hcalled : ∀ i request n a, .called i request n a ∈ answers ++ [o] ↔
      .called i request n a ∈ answers := fun _ _ _ _ =>
    mem_snoc_of_quiet ho rfl
  have hretried : ∀ i m k a, .retried i m k a ∈ answers ++ [o] ↔ .retried i m k a ∈ answers :=
    fun _ _ _ _ => mem_snoc_of_quiet ho rfl
  constructor
  · rw [hattempts, hnext]
    exact fun x hx => ⟨(h.fresh x hx).1, (h.fresh x hx).2.trans_le hattempt⟩
  · rw [hattempts]
    exact h.ids_nodup
  · intro i request n a hc
    obtain ⟨hhead, hid, hnumber, hn⟩ := h.called i request n a ((hcalled _ _ _ _).mp hc)
    exact ⟨by rw [hof, hhead], hid, hnumber, fun hm => (hn hm).trans_le hrequest⟩
  · simp only [hcalled]
    exact h.call_unique
  · simp only [hattempts, hcalled]
    exact h.made
  · simp only [hretried, hcalled]
    exact h.retried
  · intro i f' hf'
    obtain ⟨f, hf, hm⟩ := hfutures i f' hf'
    simp only [hof, hcalled, hm]
    exact h.futures i f hf
  · intro hconsistent
    simp only [hof, hcalled]
    exact h.chains hconsistent.left

omit [Oneshot χ] [TowerPolicy P σ] in
/-- An attempt has an id of its own. -/
theorem Kept.attempt {i : Nat} {request : Request} {a : RequestAttempt} (h : Kept s answers)
    (ho : o.attempt? = some (i, a)) (ha : Attempted s.service.handle s'.service.handle request a)
    (hi : i < s'.futures.next) (hnext : s.futures.next ≤ s'.futures.next) :
    (∀ x ∈ attempts (answers ++ [o]), x.1 < s'.futures.next ∧ x.2.id.id < s'.service.handle.nextAttemptId) ∧
      ((attempts (answers ++ [o])).map fun x => x.2.id).Nodup := by
  rw [attempts_snoc, ho, Option.toList_some, List.map_append, List.map_singleton, ha.nextAttemptId]
  refine ⟨List.forall_mem_append.mpr ⟨fun x hx => ?_, List.forall_mem_singleton.mpr ⟨hi, ?_⟩⟩,
    h.ids_nodup.append (List.nodup_singleton _) (List.disjoint_singleton.mpr fun hmem => ?_)⟩
  · obtain ⟨hlt, hid⟩ := h.fresh x hx
    exact ⟨hlt.trans_le hnext, hid.trans (Nat.lt_succ_self _)⟩
  · rw [ha.id]
    exact Nat.lt_succ_self _
  · obtain ⟨x, hx, hxa⟩ := List.mem_map.mp hmem
    have := (h.fresh x hx).2
    rw [hxa, ha.id] at this
    exact absurd this (Nat.lt_irrefl _)

omit [Oneshot χ] [TowerPolicy P σ] in
theorem Kept.lt_next (h : Kept s answers) {i : Nat} {r : Request} {n : Nat} {b : RequestAttempt}
    (hc : .called i r n b ∈ answers) :
    i < s.futures.next :=
  (h.fresh _ (mem_attempts_called hc)).1

omit [Oneshot χ] [TowerPolicy P σ] in
/-- A call that is new has another future than those before it, and another number. -/
theorem Kept.call_unique_snoc (h : Kept s answers) (request : Request) (a : RequestAttempt)
    {i : Nat} {r : Request} {n : Nat} {b : RequestAttempt} {i' : Nat} {r' : Request} {n' : Nat}
    {b' : RequestAttempt}
    (hc : .called i r n b ∈ answers ++
      [Output.called s.futures.next request s.service.handle.nextRequestId a])
    (hc' : .called i' r' n' b' ∈ answers ++
      [Output.called s.futures.next request s.service.handle.nextRequestId a])
    (heq : i = i' ∨ r.retryMetadata = none ∧ r'.retryMetadata = none ∧ n = n') :
    i = i' ∧ r = r' ∧ n = n' := by
  rcases mem_called_snoc hc with hold | ⟨rfl, rfl, rfl, rfl⟩ <;> rcases mem_called_snoc hc' with hold'
    | ⟨rfl, rfl, rfl, rfl⟩
  · exact h.call_unique i r n b i' r' n' b' hold hold' heq
  · rcases heq with rfl | ⟨hm, -, rfl⟩
    · exact absurd (h.lt_next hold) (Nat.lt_irrefl _)
    · exact absurd ((h.called _ _ _ _ hold).2.2.2 hm) (Nat.lt_irrefl _)
  · rcases heq with rfl | ⟨-, hm, rfl⟩
    · exact absurd (h.lt_next hold') (Nat.lt_irrefl _)
    · exact absurd ((h.called _ _ _ _ hold').2.2.2 hm) (Nat.lt_irrefl _)
  · exact ⟨rfl, rfl, rfl⟩

omit [Oneshot χ] [TowerPolicy P σ] in
theorem Kept.call {request : Request} {a : RequestAttempt} {f : DesRetryFuture P}
    (h : Kept s answers) (ha : Attempted s.service.handle s'.service.handle request a)
    (hf : f.retryMetadata = request.retryMetadata) (hfutures : s'.futures = s.futures.insert f) :
    Kept s' (answers ++ [Output.called s.futures.next request s.service.handle.nextRequestId a]) := by
  have hnext : s'.futures.next = s.futures.next + 1 := by rw [hfutures, Table.next_insert]
  obtain ⟨hfresh, hnodup⟩ := h.attempt
    (o := .called s.futures.next request s.service.handle.nextRequestId a) rfl ha
    (by omega) (by omega)
  have hlt : ∀ {j r n b}, .called j r n b ∈ answers → j < s.futures.next := h.lt_next
  have hnew :
      attemptsOf s.futures.next (answers ++
        [Output.called s.futures.next request s.service.handle.nextRequestId a]) = [a] := by
    rw [attemptsOf_snoc rfl, List.append_eq_singleton_iff]
    exact .inl ⟨List.eq_nil_iff_forall_not_mem.mpr fun b hb =>
      absurd (h.fresh _ (mem_attemptsOf.mp hb)).1 (Nat.lt_irrefl _), rfl⟩
  have hold : ∀ {j}, j < s.futures.next →
      attemptsOf j (answers ++ [Output.called s.futures.next request s.service.handle.nextRequestId a]) =
        attemptsOf j answers := fun hj => attemptsOf_snoc_other rfl hj.ne
  refine ⟨hfresh, hnodup, ?_, ?_, ?_, ?_, ?_, ?_⟩
  · intro j r n b hc
    rcases mem_called_snoc hc with hc | ⟨rfl, rfl, rfl, rfl⟩
    · obtain ⟨hhead, hid, hnumber, hn⟩ := h.called j r n b hc
      exact ⟨by rw [hold (hlt hc), hhead], hid, hnumber, fun hm => (hn hm).trans_le ha.le_nextRequestId⟩
    · exact ⟨by rw [hnew, List.head?_cons], ha.requestId, ha.attemptNumber, ha.lt_nextRequestId⟩
  · exact fun _ _ _ _ _ _ _ _ hc hc' heq => h.call_unique_snoc request a hc hc' heq
  · rw [attempts_snoc]
    refine List.forall_mem_append.mpr ⟨fun x hx => ?_, ?_⟩
    · obtain ⟨r, n, b, hc⟩ := h.made x hx
      exact ⟨r, n, b, List.mem_append_left _ hc⟩
    · rintro x hx
      cases List.mem_singleton.mp hx
      exact ⟨request, _, a, List.mem_append_right _ List.mem_cons_self⟩
  · intro j k b hb
    rcases List.mem_append.mp hb with hb | hb
    · obtain ⟨hid, hm⟩ := h.retried j k b hb
      refine ⟨hid, fun r n c hc => ?_⟩
      rcases mem_called_snoc hc with hc | ⟨rfl, -⟩
      · exact hm r n c hc
      · exact absurd (h.fresh _ (mem_attempts_retried hb)).1 (Nat.lt_irrefl _)
    · cases List.mem_singleton.mp hb
  · intro j g hg
    rw [hfutures] at hg
    rcases Table.get_insert_eq_some.mp hg with ⟨rfl, rfl⟩ | hg
    · rw [hnew, hf]
      refine ⟨?_, fun hm r n b hc => ?_⟩
      · cases hm : request.retryMetadata with
        | none => exact ⟨a, rfl⟩
        | some m =>
          exact ⟨[], a, rfl, by rw [ha.requestId, ownId, hm]; rfl,
            by rw [ha.attemptNumber, ownNumber, hm]; rfl⟩
      · rcases mem_called_snoc hc with hc | ⟨-, rfl, -⟩
        · exact absurd (hlt hc) (Nat.lt_irrefl _)
        · exact hm
    · have hj := Table.lt_next hg
      obtain ⟨hknows, hm⟩ := h.futures j g hg
      rw [hold hj]
      refine ⟨hknows, fun hg' r n b hc => ?_⟩
      rcases mem_called_snoc hc with hc | ⟨rfl, -⟩
      · exact hm hg' r n b hc
      · exact absurd hj (Nat.lt_irrefl _)
  · intro hconsistent j r n b hc
    rcases mem_called_snoc hc with hc' | ⟨rfl, rfl, rfl, rfl⟩
    · rw [hold (hlt hc')]
      exact h.chains hconsistent.left j r n b hc'
    · rw [hnew, ← ha.requestId]
      refine chain_singleton ?_
      rw [ha.attemptNumber, ownNumber]
      cases hm : r.retryMetadata with
      | none => rfl
      | some m => exact hconsistent.numbered _ _ _ _ hc m hm

omit [Oneshot χ] [TowerPolicy P σ] in
theorem Kept.retry {i : Nat} {f f' : DesRetryFuture P} {request : Request} {a : RequestAttempt}
    (h : Kept s answers) (hf : s.futures.get i = some f)
    (hfutures : s'.futures = s.futures.set i f')
    (hf' : f'.retryMetadata = some (nextMetadata s.retryAttemptId f.retryMetadata))
    (hrequest : request.retryMetadata = some (nextMetadata s.retryAttemptId f.retryMetadata))
    (ha : Attempted s.service.handle s'.service.handle request a) :
    Kept s' (answers ++ [Output.retried i f.retryMetadata s.retryAttemptId a]) := by
  have hnext : s'.futures.next = s.futures.next := by rw [hfutures, Table.next_set]
  obtain ⟨hfresh, hnodup⟩ := h.attempt (o := .retried i f.retryMetadata s.retryAttemptId a) rfl ha
    (hnext ▸ Table.lt_next hf) hnext.ge
  have hid : a.requestId = (nextMetadata s.retryAttemptId f.retryMetadata).originalRequestId := by
    rw [ha.requestId, ownId, hrequest]
    rfl
  have hnumber : a.attemptNumber = (nextMetadata s.retryAttemptId f.retryMetadata).attemptNumber := by
    rw [ha.attemptNumber, ownNumber, hrequest]
    rfl
  obtain ⟨hknows, hnone⟩ := h.futures i f hf
  have hnew :
      attemptsOf i (answers ++ [Output.retried i f.retryMetadata s.retryAttemptId a]) =
        attemptsOf i answers ++ [a] :=
    attemptsOf_snoc rfl
  have hold : ∀ {j}, j ≠ i →
      attemptsOf j (answers ++ [Output.retried i f.retryMetadata s.retryAttemptId a]) =
        attemptsOf j answers :=
    attemptsOf_snoc_other rfl
  have hmem : ∀ j r n b, .called j r n b ∈ answers ++ [Output.retried i f.retryMetadata s.retryAttemptId a] ↔
      .called j r n b ∈ answers := fun j r n b => by simp
  have hmade : ∃ r n b, .called i r n b ∈ answers := by
    obtain ⟨b, hb⟩ := hknows.exists_mem
    exact h.made (i, b) (mem_attemptsOf.mp hb)
  refine ⟨hfresh, hnodup, ?_, ?_, ?_, ?_, ?_, ?_⟩
  · intro j r n b hc
    obtain ⟨hhead, hid, hnumber, hn⟩ := h.called j r n b ((hmem _ _ _ _).mp hc)
    refine ⟨?_, hid, hnumber, fun hm => (hn hm).trans_le ha.le_nextRequestId⟩
    by_cases hj : j = i
    · subst hj
      rw [hnew, List.head?_append, hhead, Option.some_or]
    · rw [hold hj, hhead]
  · simp only [hmem]
    exact h.call_unique
  · simp only [attempts_snoc, hmem]
    refine List.forall_mem_append.mpr ⟨h.made, ?_⟩
    intro x hx
    cases List.mem_singleton.mp hx
    exact hmade
  · simp only [hmem]
    intro j k b hb
    rcases List.mem_append.mp hb with hb | hb
    · exact h.retried j k b hb
    · injection List.mem_singleton.mp hb with hj hm hk hba
      subst hj hk hba
      exact ⟨by rw [hid, ← hm]; rfl, hnone hm.symm⟩
  · intro j g hg
    simp only [hmem]
    rw [hfutures] at hg
    rcases (Table.get_set_eq_some hf).mp hg with ⟨rfl, rfl⟩ | ⟨hj, hg⟩
    · rw [hf', hnew]
      exact ⟨⟨_, a, rfl, hid, hnumber⟩, nofun⟩
    · rw [hold hj]
      exact h.futures j g hg
  · intro hconsistent j r n b hc
    have hchain := h.chains hconsistent.left j r n b ((hmem _ _ _ _).mp hc)
    by_cases hj : j = i
    · subst hj
      rw [hnew]
      refine hchain.retry hknows hid hnumber fun hm => ?_
      -- the first retry: the two counters agree
      rw [hm] at hconsistent
      have hk := hconsistent.retried j r n b s.retryAttemptId a
        (List.mem_append_left _ ((hmem _ _ _ _).mp hc))
        (List.mem_append_right _ List.mem_cons_self)
      rw [ownId, hnone hm r n b ((hmem _ _ _ _).mp hc), ← hk]
      rfl
    · rw [hold hj]
      exact hchain

theorem Kept.step [ServiceTimeDistribution δ] [EventFrontierPolicy φ] [StatusCode σ] {op : Op τ ρ φ σ w} (h : Kept s answers)
    (hstep : s.step op = some (s', o)) : Kept s' (answers ++ [o]) := by
  cases effect hstep with
  | quiet o ho hrequest hattempt hnext hfutures => exact h.quiet ho hrequest hattempt hnext hfutures
  | called request a f ha hf hfutures => exact h.call ha hf hfutures
  | retried i f f' request a hf hfutures hf' hrequest ha => exact h.retry hf hfutures hf' hrequest ha

/-! ## Runs -/

omit [Oneshot χ] [TowerPolicy P σ] in
theorem Kept.identified (h : Kept s answers) : Identified answers ↔ Consistent answers := by
  have hfirst : ∀ {i r n a}, .called i r n a ∈ answers → (i, a) ∈ attempts answers := mem_attempts_called
  constructor
  · intro hi
    refine ⟨fun i r n a hc m hm => ?_, fun i r n a hc m hm j r' n' a' hc' hji heq => ?_,
      fun i r n a k b hc hb => ?_⟩
    · -- the number of the first attempt is the first one
      obtain ⟨hhead, -, hnumber, -⟩ := h.called i r n a hc
      obtain ⟨l, hl⟩ := List.head?_eq_some_iff.mp hhead
      have hnumbers := hi.numbers i
      rw [hl, List.map_cons, List.length_cons, List.range'_succ] at hnumbers
      rw [← (List.cons.inj hnumbers).1, hnumber, ownNumber, hm]
      rfl
    · have hid : a.requestId = m.originalRequestId := by
        rw [(h.called i r n a hc).2.1, ownId, hm]
        rfl
      exact hji (hi.apart _ (hfirst hc') _ (hfirst hc) (by rw [(h.called j r' n' a' hc').2.1, hid, heq]))
    · obtain ⟨hbid, hnone⟩ := h.retried i k b hb
      have hid := (h.called i r n a hc).2.1
      have hsame := hi.same _ (hfirst hc) _ (mem_attempts_retried hb) rfl
      rw [hid, hbid, ownId, hnone r n a hc] at hsame
      exact (RequestId.mk.inj hsame).symm
  · intro hconsistent
    have hchain : ∀ x ∈ attempts answers, ∃ r n a, .called x.1 r n a ∈ answers ∧
        x.2.requestId = ownId r n := by
      intro x hx
      obtain ⟨r, n, a, hc⟩ := h.made x hx
      exact ⟨r, n, a, hc, (h.chains hconsistent x.1 r n a hc).ids x.2 (mem_attemptsOf.mpr hx)⟩
    refine ⟨fun x hx y hy hxy => ?_, fun i => ?_, h.ids_nodup, fun x hx y hy hxy => ?_⟩
    · obtain ⟨r, n, a, hc, hid⟩ := hchain x hx
      rw [hid, (h.chains hconsistent y.1 r n a (hxy ▸ hc)).ids y.2 (mem_attemptsOf.mpr hy)]
    · cases hl : attemptsOf i answers with
      | nil => rfl
      | cons b l =>
        obtain ⟨r, n, a, hc⟩ := h.made (i, b) (mem_attemptsOf.mp (hl ▸ List.mem_cons_self))
        rw [← hl]
        exact (h.chains hconsistent i r n a hc).numbers
    · obtain ⟨r, n, a, hc, hid⟩ := hchain x hx
      obtain ⟨r', n', a', hc', hid'⟩ := hchain y hy
      by_contra hne
      rw [hid, hid'] at hxy
      cases hm : r.retryMetadata with
      | some m =>
        refine hconsistent.apart x.1 r n a hc m hm y.1 r' n' a' hc' (Ne.symm hne) ?_
        rw [← hxy, ownId, hm]
        rfl
      | none =>
        cases hm' : r'.retryMetadata with
        | some m' =>
          refine hconsistent.apart y.1 r' n' a' hc' m' hm' x.1 r n a hc hne ?_
          rw [hxy, ownId, hm']
          rfl
        | none =>
          rw [ownId, ownId, hm, hm'] at hxy
          exact hne (h.call_unique x.1 r n a y.1 r' n' a' hc hc' (.inr ⟨hm, hm', RequestId.mk.inj hxy⟩)).1

/-- Any run of a service that retries, its clones, and what is below it. -/
theorem run_identified [ServiceTimeDistribution δ] [EventFrontierPolicy φ] [StatusCode σ]
    {policy : P} {service : DesService χ δ τ ρ w} {taken : Nat}
    {ops : List (Op τ ρ φ σ w)} (hrun : Machine.run step (new policy service taken) ops = some (s, answers)) :
    Identified answers ↔ Consistent answers :=
  (Machine.run_history (P := Kept) (fun _ _ _ _ _ h hs => h.step hs)
    (kept_new policy service taken) hrun).identified

/-! ## A call that is retried -/

/-- Retries of a service that takes 200 ms. -/
def slow : DesRetry DesRetryPolicy Mailbox ConstantServiceTime Unit Unit Nat :=
  new (.new 3) (.build ⟨7, 8, by decide⟩ 2 ⟨200 * nanosPerMilli⟩ 0) 0

/-- The first attempt times out after 50 ms, and 100 ms later there is a second one. -/
def timedOut (request : Request) : List (Op Unit Unit FifoFrontierPolicy Plain.Status Nat) :=
  [.call false request, .service (.other .pop),
    .service (.other (.schedule (.fromDuration (50 * nanosPerMilli)) 1 (.client .sendRequest))), .service (.other .pop),
    .poll 0 true (.ready (.error (.timeout (50 * nanosPerMilli)))), .poll 0 true .pending, .poll 0 true .pending,
    .service (.other (.schedule (.fromDuration (100 * nanosPerMilli)) 1 (.client .sendRequest))), .service (.other .pop),
    .poll 0 true .pending, .service .drain]

/-- The second attempt has an id of its own. -/
theorem not_identified_timedOut : ∃ (s : DesRetry DesRetryPolicy Mailbox ConstantServiceTime Unit Unit Nat) (answers : List (Output Plain.Status)),
    Machine.run step slow (timedOut getRoot) = some (s, answers) ∧ ¬Identified answers := by
  refine ⟨_, _, rfl, fun h => ?_⟩
  have hsame := h.same (0, _) (List.mem_cons_self) (0, _) (List.mem_cons_of_mem _ List.mem_cons_self) rfl
  exact absurd hsame (by decide)

/-- A request that has metadata with it. -/
def marked : Request := Metadata.addRetryMetadata getRoot (.new ⟨12345⟩)

/-- What a call is told by. -/
def Output.called? : Output σ → Option (Nat × Request)
  | .called i request _ _ => some (i, request)
  | _ => none

/-- The first retry of a request without metadata. -/
def Output.takesId : Output σ → Bool
  | .retried _ none _ _ => true
  | _ => false

theorem consistent_of_marked (hcalled : answers.filterMap Output.called? = [(0, marked)])
    (hretried : answers.any Output.takesId = false) :
    Consistent answers := by
  have hmem : ∀ {i request n a}, .called i request n a ∈ answers → i = 0 ∧ request = marked := fun h =>
    Prod.mk.inj (List.mem_singleton.mp (hcalled ▸ List.mem_filterMap.mpr ⟨_, h, rfl⟩))
  refine ⟨fun i request n a hc m hm => ?_, fun i request n a hc m hm j request' n' a' hc' hji => ?_,
    fun i request n a k b hc hb => ?_⟩
  · obtain ⟨-, rfl⟩ := hmem hc
    cases hm
    rfl
  · exact absurd ((hmem hc').1.trans (hmem hc).1.symm) hji
  · exact absurd rfl (List.any_eq_false.mp hretried _ hb)

theorem run_identified_timedOut : ∃ (s : DesRetry DesRetryPolicy Mailbox ConstantServiceTime Unit Unit Nat) (answers : List (Output Plain.Status)),
    Machine.run step slow (timedOut marked) = some (s, answers) ∧ (attempts answers).length = 2 ∧ Identified answers :=
  have hrun := (rfl : Machine.run step slow (timedOut marked) = some (_, _))
  ⟨_, _, hrun, rfl, (run_identified hrun).mpr (consistent_of_marked rfl rfl)⟩

end DesCartes.Tower.DesRetry
