import DesCartes.Impl.Explore.SharedReplayRng

/-!
# Branching a run by replaying its draws

A run records each draw it makes, replayed or not, so a trace that is captured has the log of the
run up to there (`perform_records`), and a provider that is given the trace answers as the log says
(`Replaying`). When the log is used up, what is left of the provider is its fallback
(`perform_chained`).
-/

namespace DesCartes.Explore

/-- What is recorded of an effect. -/
def eventOf : Effect × Option F64 → TraceEvent
  | (.draw site _, value) => drawEvent site (value.getD 0)
  | (.record event _, _) => event

/-- A draw has a value, and nothing else has one. -/
def Answered : Effect × Option F64 → Prop
  | (.draw .., value) => value.isSome = true
  | (.record .., value) => value = none

section
variable {γ : Type} [StdRng γ]

theorem SharedTracingRandomProvider.sampleExpSeconds_ok {p p' : SharedTracingRandomProvider γ}
    {r r' : TraceRecorder} {site : DrawSite} {rate value : F64}
    (h : p.sampleExpSeconds r site rate = .ok (value, p', r')) :
    r' = r ++ [drawEvent site value] := by
  unfold sampleExpSeconds at h
  split at h
  · cases h
  · cases h
    rfl

/-- Each draw is recorded, whatever it comes from. -/
theorem SharedChainedRandomProvider.sampleExpSeconds_ok {p p' : SharedChainedRandomProvider γ}
    {r r' : TraceRecorder} {site : DrawSite} {rate value : F64}
    (h : p.sampleExpSeconds r site rate = .ok (value, p', r')) :
    r' = r ++ [drawEvent site value] := by
  unfold sampleExpSeconds at h
  split at h
  · split at h
    · cases h
    · split at h
      · cases h
        rfl
      · cases h
  · cases hf : p.fallback.sampleExpSeconds r site rate with
    | error e => simp [hf, Except.map] at h
    | ok q =>
      simp only [hf, Except.map, Except.ok.injEq, Prod.mk.injEq] at h
      obtain ⟨rfl, -, rfl⟩ := h
      exact SharedTracingRandomProvider.sampleExpSeconds_ok hf

theorem perform_records (s : Shared (SharedChainedRandomProvider γ)) (q : Effect) (a : Option F64)
    (u : Shared (SharedChainedRandomProvider γ)) (h : s.perform q = .ok (a, u)) :
    Answered (q, a) ∧ u.recorder = s.recorder ++ [eventOf (q, a)] := by
  cases q with
  | record event notDraw =>
    cases h
    exact ⟨rfl, rfl⟩
  | draw site rate =>
    simp only [Shared.perform, RandomProvider.sampleExpSeconds] at h
    cases hs : s.provider.sampleExpSeconds s.recorder site rate with
    | error e => simp [hs, Except.map] at h
    | ok p =>
      simp only [hs, Except.map, Except.ok.injEq, Prod.mk.injEq] at h
      obtain ⟨rfl, rfl⟩ := h
      exact ⟨rfl, SharedChainedRandomProvider.sampleExpSeconds_ok hs⟩

/-! ## Replaying a log -/

/-- The provider is at the draws of `l`, and the events of `l` are what is missing of `tr`. -/
structure Replaying (fallback : SharedTracingRandomProvider γ) (tr : List TraceEvent) (u : Shared (SharedChainedRandomProvider γ))
    (l : List (Effect × Option F64)) : Prop where
  answered : ∀ e ∈ l, Answered e
  provider : u.provider = ⟨(l.map eventOf).filterMap TraceEvent.randomDraw?, fallback⟩
  recorder : u.recorder ++ l.map eventOf = tr

/-- The same draw at the same site has the same value. -/
theorem Replaying.perform {fallback : SharedTracingRandomProvider γ} {tr : List TraceEvent}
    {u : Shared (SharedChainedRandomProvider γ)} {q : Effect} {a : Option F64}
    {l : List (Effect × Option F64)} (h : Replaying fallback tr u ((q, a) :: l)) :
    ∃ u', u.perform q = .ok (a, u') ∧ Replaying fallback tr u' l := by
  obtain ⟨provider, recorder⟩ := u
  obtain ⟨hanswered, rfl, hrec⟩ := h
  obtain ⟨ha, hl⟩ := List.forall_mem_cons.mp hanswered
  rw [List.map_cons, List.append_cons] at hrec
  cases q with
  | record event notDraw =>
    cases ha
    refine ⟨_, rfl, hl, ?_, hrec⟩
    simp [eventOf, notDraw]
  | draw site rate =>
    obtain ⟨value, rfl⟩ := Option.isSome_iff_exists.mp ha
    refine ⟨⟨⟨(l.map eventOf).filterMap TraceEvent.randomDraw?, fallback⟩,
      recorder ++ [drawEvent site value]⟩, ?_, hl, rfl, hrec⟩
    simp [Shared.perform, RandomProvider.sampleExpSeconds, SharedChainedRandomProvider.sampleExpSeconds,
      eventOf, drawEvent,
      TraceEvent.randomDraw?, Except.map, TraceRecorder.record]

/-! ## After the draws of the prefix -/

/-- A provider that has nothing to replay. -/
def chained (s : Shared (SharedTracingRandomProvider γ)) : Shared (SharedChainedRandomProvider γ) :=
  ⟨⟨[], s.provider⟩, s.recorder⟩

/-- It draws from its fallback. -/
theorem perform_chained (s : Shared (SharedTracingRandomProvider γ)) (q : Effect) :
    (chained s).perform q = (s.perform q).map fun p => (p.1, chained p.2) := by
  cases q with
  | record event notDraw => rfl
  | draw site rate =>
    simp only [Shared.perform, RandomProvider.sampleExpSeconds,
      SharedChainedRandomProvider.sampleExpSeconds, chained]
    cases s.provider.sampleExpSeconds s.recorder site rate <;> rfl

/-- The only panic of the fallback. -/
theorem perform_tracing_error (s : Shared (SharedTracingRandomProvider γ)) (q : Effect) (e : DrawPanic)
    (h : s.perform q = .error e) : e = .rateMustBePositive := by
  cases q with
  | record event notDraw => cases h
  | draw site rate =>
    simp only [Shared.perform, RandomProvider.sampleExpSeconds,
      SharedTracingRandomProvider.sampleExpSeconds] at h
    cases hs : StdRng.sampleExp s.provider.rng rate with
    | none =>
      simp only [hs, Except.map] at h
      exact (Except.error.inj h).symm
    | some p => simp [hs, Except.map] at h

end

/-! ## Runs -/

section
variable {κ : Type} (scenario : Scenario κ)

theorem Scenario.steps_add (n m : Nat) (k : κ) :
    scenario.steps (n + m) k = (scenario.steps n k).bind (scenario.steps m) := by
  induction n generalizing k with
  | zero => rw [Nat.zero_add]; rfl
  | succ n ih =>
    rw [Nat.add_right_comm, steps, steps, Client.bind_assoc]
    exact congrArg _ (funext ih)

theorem Scenario.run_add (n m : Nat) : scenario.run (n + m) = (scenario.run n).bind (scenario.steps m) := by
  rw [run, run, Client.bind_assoc]
  exact congrArg _ (funext (scenario.steps_add n m))

variable {scenario} {γ γ' : Type} [StdRng γ] [StdRng γ'] {pre : Option (List TraceEvent)} {seed : BitVec 64} {n : Nat}
variable {earlier : Client.Trial Effect (Option F64) κ (Shared (SharedChainedRandomProvider γ))}

/-- The rest of a run is a run of its own. -/
theorem Scenario.branch_add (m : Nat) : scenario.branch γ pre seed (n + m) =
    (scenario.branch γ pre seed n).bind fun t =>
      ((scenario.steps m t.result).tryRun Shared.perform t.state).map (Client.Trial.after t.log) := by
  rw [branch, run_add, Client.tryRun_bind]
  rfl

theorem Scenario.branch_le {m : Nat} (hm : m ≤ n) (h : scenario.branch γ pre seed n = .ok earlier) :
    ∃ t, scenario.branch γ pre seed m = .ok t := by
  obtain ⟨j, rfl⟩ := Nat.exists_eq_add_of_le hm
  rw [branch_add] at h
  cases hb : scenario.branch γ pre seed m with
  | error e => rw [hb] at h; cases h
  | ok t => exact ⟨t, rfl⟩

/-- The run that is started with a captured trace, up to where it was captured. -/
theorem Scenario.branch_captured (h : scenario.branch γ pre seed n = .ok earlier) (seed' : BitVec 64) :
    scenario.branch γ' (some earlier.state.recorder) seed' n =
      .ok ⟨earlier.result, earlier.log, ⟨⟨[], .new seed'⟩, earlier.state.recorder⟩⟩ := by
  obtain ⟨hall, hrec⟩ := Client.tryRun_recorded perform_records h
  rw [List.nil_append] at hrec
  have hstart : Replaying (.new seed') earlier.state.recorder
      (⟨.new (some earlier.state.recorder) seed', []⟩ : Shared (SharedChainedRandomProvider γ'))
      (earlier.log ++ []) := by
    rw [List.append_nil]
    exact ⟨hall, by rw [hrec]; rfl, hrec.symm⟩
  obtain ⟨u, hu, hend⟩ := Client.tryRun_follows (fun _ _ _ _ h => h.perform) h hstart
  obtain ⟨provider, recorder⟩ := u
  obtain ⟨-, rfl, hrecorder⟩ := hend
  have hrecorder : recorder = earlier.state.recorder := (List.append_nil _).symm.trans hrecorder
  rw [branch, hu, hrecorder]
  rfl

/-- From there on it draws from its fallback. -/
theorem Scenario.branch_continued (h : scenario.branch γ pre seed n = .ok earlier)
    (seed' : BitVec 64) (m : Nat) :
    scenario.branch γ' (some earlier.state.recorder) seed' (n + m) =
      ((scenario.steps m earlier.result).tryRun Shared.perform
        (⟨.new seed', earlier.state.recorder⟩ : Shared (SharedTracingRandomProvider γ'))).map fun t =>
          (t.mapState chained).after earlier.log := by
  have hmap := Client.tryRun_map perform_chained (scenario.steps m earlier.result)
    (⟨.new seed', earlier.state.recorder⟩ : Shared (SharedTracingRandomProvider γ'))
  rw [branch_add, branch_captured h seed']
  show Except.map _ ((scenario.steps m earlier.result).tryRun Shared.perform
    (chained (⟨.new seed', earlier.state.recorder⟩ : Shared (SharedTracingRandomProvider γ')))) = _
  rw [hmap]
  cases (scenario.steps m earlier.result).tryRun Shared.perform
    (⟨.new seed', earlier.state.recorder⟩ : Shared (SharedTracingRandomProvider γ')) <;> rfl

/-- The only panic of a run that is started with a captured trace. -/
theorem Scenario.branch_error (h : scenario.branch γ pre seed n = .ok earlier) (seed' : BitVec 64)
    {m : Nat} {e : DrawPanic}
    (he : scenario.branch γ' (some earlier.state.recorder) seed' m = .error e) :
    e = .rateMustBePositive := by
  rcases Nat.le_total m n with hm | hm
  · have hn : scenario.branch γ' (some earlier.state.recorder) seed' n = .ok _ := branch_captured h seed'
    obtain ⟨t, ht⟩ := branch_le hm hn
    cases ht.symm.trans he
  · obtain ⟨j, rfl⟩ := Nat.exists_eq_add_of_le hm
    rw [branch_continued h seed'] at he
    cases ht : (scenario.steps j earlier.result).tryRun Shared.perform
        (⟨.new seed', earlier.state.recorder⟩ : Shared (SharedTracingRandomProvider γ')) with
    | error e' =>
      rw [ht] at he
      cases he
      exact Client.tryRun_error perform_tracing_error ht
    | ok t => rw [ht] at he; cases he

/-- Without a prefix the generator is the only one to panic. -/
theorem Scenario.branch_none_error {e : DrawPanic} (h : scenario.branch γ none seed n = .error e) :
    e = .rateMustBePositive := by
  have hmap := Client.tryRun_map perform_chained (scenario.run n)
    (⟨.new seed, []⟩ : Shared (SharedTracingRandomProvider γ))
  cases ht : (scenario.run n).tryRun Shared.perform
    (⟨.new seed, []⟩ : Shared (SharedTracingRandomProvider γ)) with
  | error e' =>
    rw [ht] at hmap
    cases hmap.symm.trans h
    exact Client.tryRun_error perform_tracing_error ht
  | ok t =>
    rw [ht] at hmap
    cases hmap.symm.trans h

/-- A run that reaches the point of the capture has recorded the captured trace first. -/
theorem Scenario.branch_recorder (h : scenario.branch γ pre seed n = .ok earlier)
    (seed' : BitVec 64) {m : Nat} (hm : n ≤ m)
    {t : Client.Trial Effect (Option F64) κ (Shared (SharedChainedRandomProvider γ'))}
    (ht : scenario.branch γ' (some earlier.state.recorder) seed' m = .ok t) :
    earlier.state.recorder <+: t.state.recorder := by
  obtain ⟨j, rfl⟩ := Nat.exists_eq_add_of_le hm
  rw [branch_add, branch_captured h seed'] at ht
  cases hj : (scenario.steps j earlier.result).tryRun Shared.perform
      (⟨⟨[], .new seed'⟩, earlier.state.recorder⟩ : Shared (SharedChainedRandomProvider γ')) with
  | error e => simp [Except.bind, hj, Except.map] at ht
  | ok t' =>
    simp only [Except.bind, hj, Except.map, Except.ok.injEq] at ht
    subst ht
    obtain ⟨-, hrec⟩ := Client.tryRun_recorded perform_records hj
    exact ⟨_, hrec.symm⟩

end

/-- A trace is captured after any number of steps of a run, and another run is started with it. That
run has the same log up to there and is then in the same state; it has no other panic than that of
its generator, which it has not drawn from before that point, and draws from only from there on; its
draws begin with those of the trace. -/
theorem branch_replayed {κ γ γ' : Type} [StdRng γ] [StdRng γ'] (scenario : Scenario κ) (pre : Option (List TraceEvent))
    (seed : BitVec 64) (n : Nat) {earlier : Client.Trial Effect (Option F64) κ (Shared (SharedChainedRandomProvider γ))}
    (h : scenario.branch γ pre seed n = .ok earlier) (seed' : BitVec 64) :
    let captured := earlier.state.recorder
    let branched := scenario.branch γ' (some captured) seed'
    branched n = .ok ⟨earlier.result, earlier.log, ⟨⟨[], .new seed'⟩, captured⟩⟩ ∧
      (∀ m e, branched m = .error e → e = .rateMustBePositive) ∧
      (∀ m, branched (n + m) = ((scenario.steps m earlier.result).tryRun Shared.perform
        (⟨.new seed', captured⟩ : Shared (SharedTracingRandomProvider γ'))).map fun t =>
          ⟨t.result, earlier.log ++ t.log, ⟨⟨[], t.state.provider⟩, t.state.recorder⟩⟩) ∧
      ∀ m t, n ≤ m → branched m = .ok t →
        captured.filterMap TraceEvent.randomDraw? <+: t.state.recorder.filterMap TraceEvent.randomDraw? := by
  intro captured branched
  refine ⟨Scenario.branch_captured h seed', fun m e he => Scenario.branch_error h seed' he,
    fun m => Scenario.branch_continued h seed' m, fun m t hm ht => ?_⟩
  obtain ⟨rest, hrest⟩ := Scenario.branch_recorder h seed' hm ht
  exact ⟨rest.filterMap TraceEvent.randomDraw?, by rw [← hrest, List.filterMap_append]⟩

/-- A generator that counts; a rate of zero is none. -/
instance countingRng : StdRng Nat :=
  ⟨fun seed => seed.toNat, fun rng rate => if rate = 0 then none else some (BitVec.ofNat 64 rng, rng + 1)⟩

/-- Arrivals, and a service after each. -/
def arrivals : Scenario (List F64) where
  setup := .done []
  step times := .ask (.draw ⟨"arrival", 1⟩ 1) fun arrival => .ask (.draw ⟨"service", 2⟩ 2) fun service =>
    .ask (.record (.concurrency ⟨some 0, 1, .mutexAcquire 0⟩) rfl) fun _ => .done (times ++ arrival.toList ++ service.toList)

theorem branch_replayed_arrivals :
    ∃ earlier, arrivals.branch Nat (some [drawEvent ⟨"arrival", 1⟩ 40]) 7 2 = .ok earlier ∧ earlier.result = [40, 7, 8, 9] ∧
      let captured := earlier.state.recorder
      let branched := arrivals.branch Nat (some captured) 100
      branched 2 = .ok ⟨earlier.result, earlier.log, ⟨⟨[], .new 100⟩, captured⟩⟩ ∧
        (∀ m e, branched m = .error e → e = .rateMustBePositive) ∧
        (∀ m, branched (2 + m) = ((arrivals.steps m earlier.result).tryRun Shared.perform
          (⟨.new 100, captured⟩ : Shared (SharedTracingRandomProvider Nat))).map fun t =>
            ⟨t.result, earlier.log ++ t.log, ⟨⟨[], t.state.provider⟩, t.state.recorder⟩⟩) ∧
        ∀ m t, 2 ≤ m → branched m = .ok t →
          captured.filterMap TraceEvent.randomDraw? <+: t.state.recorder.filterMap TraceEvent.randomDraw? := by
  have h : arrivals.branch Nat (some [drawEvent ⟨"arrival", 1⟩ 40]) 7 2 = .ok _ := rfl
  exact ⟨_, h, rfl, branch_replayed arrivals (some [drawEvent ⟨"arrival", 1⟩ 40]) 7 2 h 100⟩

end DesCartes.Explore
