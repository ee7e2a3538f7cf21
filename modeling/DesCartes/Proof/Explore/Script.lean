import DesCartes.Proof.Explore.Replay

/-!
# Driving a run by the script of another one

`extract_decisions` numbers the decisions of a trace as the exploration policies number their calls,
and keys of different numbers are different. A script of what was observed therefore has, at each
call of a policy, what was chosen there (`Scripted`).

`script_recorded`: a run under exploration policies with the script of a recorded run is that run.
-/

namespace DesCartes.Explore

open AsyncRuntime (ReadyTaskPolicy)

/-! ## Scripts of observed decisions -/

/-- What a script has that was made of decisions with different keys. -/
theorem get_foldl_insert {obs : List ObservedDecision}
    (hkeys : obs.Pairwise fun d d' => d.key.normalized ≠ d'.key.normalized)
    (script : DecisionScript) {d : ObservedDecision} (hd : d ∈ obs) :
    (obs.foldl (fun script d => script.insert d.key d.chosen) script).get d.key = some d.chosen := by
  have hkeep : ∀ (obs : List ObservedDecision) (script : DecisionScript),
      (∀ d' ∈ obs, d'.key.normalized ≠ d.key.normalized) →
        (obs.foldl (fun script d => script.insert d.key d.chosen) script).get d.key = script.get d.key := by
    intro obs
    induction obs with
    | nil => exact fun _ _ => rfl
    | cons d' obs ih =>
      intro script h
      obtain ⟨h₁, h₂⟩ := List.forall_mem_cons.mp h
      rw [List.foldl_cons, ih _ h₂]
      exact Function.update_of_ne h₁.symm ..
  induction obs generalizing script with
  | nil => cases hd
  | cons d' obs ih =>
    obtain ⟨h₁, h₂⟩ := List.pairwise_cons.mp hkeys
    rw [List.foldl_cons]
    rcases List.mem_cons.mp hd with rfl | hd
    · rw [hkeep obs _ fun d' hd' => (h₁ d' hd').symm]
      exact Function.update_self ..
    · exact ih h₂ _ hd

/-- The ordinals of the two kinds, each from its own number on. -/
def Later (f r : Nat) (key : DecisionKey) : Prop :=
  (key.kind = .frontier → f ≤ key.ordinal) ∧ (key.kind = .tokioReady → r ≤ key.ordinal)

theorem observe_key {kind : DecisionKind} {timeNanos ordinal : Nat} {choiceSet : List Nat}
    {chosen : Option Nat} {chosenIndex : Nat} {d : ObservedDecision}
    (h : observe kind timeNanos ordinal choiceSet chosen chosenIndex = some d) :
    d.key.kind = kind ∧ d.key.ordinal = ordinal := by
  obtain ⟨c, -, rfl⟩ := Option.map_eq_some_iff.mp h
  exact ⟨rfl, rfl⟩

/-- Decisions of one kind and different numbers have different keys. -/
theorem key_ne {d d' : ObservedDecision} (hk : d.key.kind = d'.key.kind → d.key.ordinal < d'.key.ordinal) :
    d.key.normalized ≠ d'.key.normalized := by
  intro e
  have hkind : d.key.normalized.kind = d'.key.normalized.kind := by rw [e]
  have hord : d.key.normalized.ordinal = d'.key.normalized.ordinal := by rw [e]
  exact (hk hkind).ne hord

/-- Decisions are numbered from the two ordinals on, so that no two keys are the same. -/
theorem extractDecisionsFrom_keys {f r : Nat} {events : List TraceEvent} {obs : List ObservedDecision}
    (h : extractDecisionsFrom f r events = some obs) :
    (∀ d ∈ obs, Later f r d.key) ∧ obs.Pairwise fun d d' => d.key.normalized ≠ d'.key.normalized := by
  induction events generalizing f r obs with
  | nil =>
    cases h
    exact ⟨fun d hd => absurd hd List.not_mem_nil, .nil⟩
  | cons e events ih =>
    cases e with
    | schedulerDecision d =>
      obtain ⟨o, ho, h⟩ := Option.bind_eq_some_iff.mp h
      obtain ⟨obs', h', rfl⟩ := Option.map_eq_some_iff.mp h
      obtain ⟨hkind, hord⟩ := observe_key ho
      obtain ⟨hlater, hpair⟩ := ih h'
      refine ⟨List.forall_mem_cons.mpr ⟨⟨fun _ => hord.ge, fun e => ?_⟩, fun d hd => ?_⟩,
        List.pairwise_cons.mpr ⟨fun d hd => ?_, hpair⟩⟩
      · cases hkind.symm.trans e
      · exact ⟨fun e => (Nat.le_succ f).trans ((hlater d hd).1 e), (hlater d hd).2⟩
      · refine key_ne fun e => ?_
        rw [hord]
        exact (hlater d hd).1 (e.symm.trans hkind)
    | asyncRuntimeDecision d =>
      obtain ⟨o, ho, h⟩ := Option.bind_eq_some_iff.mp h
      obtain ⟨obs', h', rfl⟩ := Option.map_eq_some_iff.mp h
      obtain ⟨hkind, hord⟩ := observe_key ho
      obtain ⟨hlater, hpair⟩ := ih h'
      refine ⟨List.forall_mem_cons.mpr ⟨⟨fun e => ?_, fun _ => hord.ge⟩, fun d hd => ?_⟩,
        List.pairwise_cons.mpr ⟨fun d hd => ?_, hpair⟩⟩
      · cases hkind.symm.trans e
      · exact ⟨(hlater d hd).1, fun e => (Nat.le_succ r).trans ((hlater d hd).2 e)⟩
      · refine key_ne fun e => ?_
        rw [hord]
        exact (hlater d hd).2 (e.symm.trans hkind)
    | randomDraw d => exact ih h
    | concurrency c => exact ih h

/-- The script of the decisions of a trace has them all. -/
theorem get_fromObserved {events : List TraceEvent} {obs : List ObservedDecision}
    (h : extractDecisions events = some obs) {d : ObservedDecision} (hd : d ∈ obs) :
    (DecisionScript.fromObserved obs).get d.key = some d.chosen :=
  get_foldl_insert (extractDecisionsFrom_keys h).2 _ hd

theorem extractDecisionsFrom_filter (f r : Nat) (events : List TraceEvent) :
    extractDecisionsFrom f r (events.filter isDecision) = extractDecisionsFrom f r events := by
  induction events generalizing f r with
  | nil => rfl
  | cons e events ih =>
    cases e with
    | schedulerDecision d =>
      have hd : isDecision (.schedulerDecision d) = true := rfl
      simp only [List.filter_cons_of_pos hd, extractDecisionsFrom, ih]
    | asyncRuntimeDecision d =>
      have hd : isDecision (.asyncRuntimeDecision d) = true := rfl
      simp only [List.filter_cons_of_pos hd, extractDecisionsFrom, ih]
    | randomDraw d => exact ih f r
    | concurrency c => exact ih f r

/-! ## Scripted runs -/

/-- A policy, and how often it has been asked. -/
structure Counted (φ : Type) where
  policy : φ
  asked : Nat

instance {φ : Type} [EventFrontierPolicy φ] : EventFrontierPolicy (Counted φ) :=
  ⟨fun p time events => let (i, policy) := EventFrontierPolicy.choose p.policy time events; (i, ⟨policy, p.asked + 1⟩)⟩

instance {π : Type} [ReadyTaskPolicy π] : ReadyTaskPolicy (Counted π) :=
  ⟨fun p time tasks => let (i, policy) := ReadyTaskPolicy.choose p.policy time tasks; (i, ⟨policy, p.asked + 1⟩)⟩

section
variable {φ π : Type} [EventFrontierPolicy φ] [ReadyTaskPolicy π]

/-- The script has what the log says of the choices to come. -/
structure Scripted (script : DecisionScript) (base : φ) (baseReady : π)
    (p : Policies (ExplorationFrontierPolicy φ) (ExplorationReadyTaskPolicy π)) (l : List (Question × Nat)) : Prop where
  sane : ∀ e ∈ l, Sane e
  frontier : p.frontier.script = some script ∧ p.frontier.inner = base
  ready : p.ready.script = some script ∧ p.ready.inner = baseReady
  observed : ∃ obs, extractDecisionsFrom p.frontier.nextOrdinal p.ready.nextOrdinal (l.map realized) = some obs ∧
    ∀ d ∈ obs, script.get d.key = some d.chosen

/-- A choice that the script forces. -/
theorem ExplorationFrontierPolicy.choose_forced {p : ExplorationFrontierPolicy φ}
    {script : DecisionScript} (hp : p.script = some script) {time : SimTime}
    {events : List FrontierEvent} (hn : (seqs events).Nodup) {i : Nat} (hi : i < events.length)
    (hget : script.get (.new .frontier time.nanos p.nextOrdinal (seqs events)) = some events[i].seq)
    (r : TraceRecorder) :
    p.choose r time events =
      (i, { p with nextOrdinal := p.nextOrdinal + 1 },
        r ++ [TraceEvent.schedulerDecision (.realized time events i)]) := by
  have hmin : min i (events.length - 1) = i := by omega
  simp only [ExplorationFrontierPolicy.choose, forced, hp, hget, idxOf?_seq hn hi, recordFrontier, hmin]
  rfl

theorem ExplorationReadyTaskPolicy.choose_forced {p : ExplorationReadyTaskPolicy π}
    {script : DecisionScript} (hp : p.script = some script) {time : SimTime}
    {tasks : List AsyncRuntime.TaskId} (hn : tasks.Nodup) {i : Nat} (hi : i < tasks.length)
    (hget : script.get (.new .tokioReady time.nanos p.nextOrdinal tasks) = some tasks[i])
    (r : TraceRecorder) :
    p.choose r time tasks =
      (i, { p with nextOrdinal := p.nextOrdinal + 1 },
        r ++ [TraceEvent.asyncRuntimeDecision (.realized time tasks i)]) := by
  have hmin : min i (tasks.length - 1) = i := by omega
  simp only [ExplorationReadyTaskPolicy.choose, forced, hp, hget, Vec.idxOf?_getElem hn hi, recordReady, hmin]
  rfl

theorem observe_frontier {time : SimTime} {events : List FrontierEvent} {i : Nat}
    (hi : i < events.length) (f r : Nat) (tr : List TraceEvent) :
    extractDecisionsFrom f r (.schedulerDecision (.realized time events i) :: tr) =
      (extractDecisionsFrom (f + 1) r tr).map (⟨.new .frontier time.nanos f (seqs events),
        events[i].seq⟩ :: ·) := by
  simp only [extractDecisionsFrom, choiceSet_realized]
  simp [observe, SchedulerDecision.realized, hi]

theorem observe_ready {time : SimTime} {tasks : List AsyncRuntime.TaskId} {i : Nat}
    (hi : i < tasks.length) (f r : Nat) (tr : List TraceEvent) :
    extractDecisionsFrom f r (.asyncRuntimeDecision (.realized time tasks i) :: tr) =
      (extractDecisionsFrom f (r + 1) tr).map (⟨.new .tokioReady time.nanos r tasks, tasks[i]⟩ :: ·) := by
  simp [extractDecisionsFrom, observe, AsyncRuntimeDecision.realized, hi]

theorem Scripted.ask {script : DecisionScript} {base : φ} {baseReady : π}
    {p : Policies (ExplorationFrontierPolicy φ) (ExplorationReadyTaskPolicy π)} {q : Question} {a : Nat}
    {l : List (Question × Nat)} (h : Scripted script base baseReady p ((q, a) :: l)) :
    (p.ask q).1 = a ∧ Scripted script base baseReady (p.ask q).2 l := by
  obtain ⟨⟨hq, ha⟩, hsane⟩ := List.forall_mem_cons.mp h.sane
  obtain ⟨obs, hobs, hscript⟩ := h.observed
  cases q with
  | frontier time events =>
    simp only [List.map_cons, realized, observe_frontier ha] at hobs
    obtain ⟨obs', hobs', rfl⟩ := Option.map_eq_some_iff.mp hobs
    obtain ⟨hget, hscript'⟩ := List.forall_mem_cons.mp hscript
    have hchoose := ExplorationFrontierPolicy.choose_forced h.frontier.1 hq.1 ha hget p.recorder
    have hask : p.ask (.frontier time events) = (a, { p with
        frontier := { p.frontier with nextOrdinal := p.frontier.nextOrdinal + 1 }
        recorder := p.recorder ++ [TraceEvent.schedulerDecision (.realized time events a)] }) := by
      simp only [Policies.ask, TracedFrontierPolicy.choose, hchoose]
    rw [hask]
    exact ⟨rfl, hsane, h.frontier, h.ready, obs', hobs', hscript'⟩
  | ready time tasks =>
    simp only [List.map_cons, realized, observe_ready ha] at hobs
    obtain ⟨obs', hobs', rfl⟩ := Option.map_eq_some_iff.mp hobs
    obtain ⟨hget, hscript'⟩ := List.forall_mem_cons.mp hscript
    have hchoose := ExplorationReadyTaskPolicy.choose_forced h.ready.1 hq.1 ha hget p.recorder
    have hask : p.ask (.ready time tasks) = (a, { p with
        ready := { p.ready with nextOrdinal := p.ready.nextOrdinal + 1 }
        recorder := p.recorder ++ [TraceEvent.asyncRuntimeDecision (.realized time tasks a)] }) := by
      simp only [Policies.ask, TracedReadyTaskPolicy.choose, hchoose]
    rw [hask]
    exact ⟨rfl, hsane, h.frontier, h.ready, obs', hobs', hscript'⟩

/-- The decisions of a log that is sane are extracted without a panic. -/
theorem extractDecisionsFrom_isSome {l : List (Question × Nat)} (hl : ∀ e ∈ l, Sane e) (f r : Nat) :
    ∃ obs, extractDecisionsFrom f r (l.map realized) = some obs := by
  induction l generalizing f r with
  | nil => exact ⟨[], rfl⟩
  | cons e l ih =>
    obtain ⟨he, hl'⟩ := List.forall_mem_cons.mp hl
    obtain ⟨_ | _, a⟩ := e
    · obtain ⟨obs, h⟩ := ih hl' (f + 1) r
      simp only [List.map_cons, realized, observe_frontier he.2, h]
      exact ⟨_, rfl⟩
    · obtain ⟨obs, h⟩ := ih hl' f (r + 1)
      simp only [List.map_cons, realized, observe_ready he.2, h]
      exact ⟨_, rfl⟩

end

/-- A run is recorded under policies that record their choices, and run again under exploration
policies with the script of the decisions of its trace, whatever their base policies: it is the same
run, the same decisions are recorded, and the base policies have not been asked. -/
theorem script_recorded {κ ν φ π φ₁ π₁ φ₀ : Type} [TracedFrontierPolicy φ] [RecordsFrontier φ] [TracedReadyTaskPolicy π]
    [RecordsReady π] [EventFrontierPolicy φ₁] [ReadyTaskPolicy π₁] [EventFrontierPolicy φ₀]
    (program : Program κ ν) {idSeed : BitVec 64} {ops : List (Op (Payload ν) Unit Unit φ₀)}
    {session : Session (Payload ν) Unit Unit}
    {answers : List (Answer (Payload ν))} (hr : Machine.run Session.step (.fresh idSeed) ops = some (session, answers))
    (deferred : List (SimTime × Message ν)) (key : Uuid) (spawned : Nat) (k : κ) (n : Nat) (frontier : φ) (ready : π)
    (tr : List TraceEvent) :
    let w := World.install session.scheduler () deferred key () spawned
    let recorded := program.play n k w ⟨frontier, ready, []⟩
    tr.filter isDecision = recorded.2.recorder →
    ∃ observed, extractDecisions tr = some observed ∧ ∀ (base : φ₁) (baseReady : π₁),
      let script := DecisionScript.fromObserved observed
      let scripted := program.play n k w ⟨ExplorationFrontierPolicy.new (Counted.mk base 0) (some script),
        ExplorationReadyTaskPolicy.new (Counted.mk baseReady 0) (some script), []⟩
      scripted.1 = recorded.1 ∧ scripted.2.recorder = recorded.2.recorder ∧
        scripted.2.frontier.inner = ⟨base, 0⟩ ∧ scripted.2.ready.inner = ⟨baseReady, 0⟩ := by
  intro w recorded htr
  have hkept := Session.Kept.run (Session.wf_fresh idSeed) (Session.kept_fresh idSeed) hr
  have hw : w.Sound := World.sound_install hkept.numbered ..
  obtain ⟨hrec, hsane⟩ := play_recorder program n k hw ⟨frontier, ready, []⟩
  obtain ⟨observed, hobs⟩ := extractDecisionsFrom_isSome hsane 0 0
  have hextract : extractDecisions tr = some observed := by
    rw [extractDecisions, ← extractDecisionsFrom_filter, htr, hrec]
    exact hobs
  refine ⟨observed, hextract, fun base baseReady => ?_⟩
  intro script scripted
  have hF : Scripted script (Counted.mk base 0) (Counted.mk baseReady 0)
      ⟨ExplorationFrontierPolicy.new (Counted.mk base 0) (some script),
        ExplorationReadyTaskPolicy.new (Counted.mk baseReady 0) (some script), []⟩
      ((program.run n k w).log Policies.ask ⟨frontier, ready, []⟩ ++ []) := by
    rw [List.append_nil]
    exact ⟨hsane, ⟨rfl, rfl⟩, ⟨rfl, rfl⟩, observed, hobs, fun d hd => get_fromObserved hextract hd⟩
  obtain ⟨h₁, h₂, h₃⟩ := Client.run_follows
    (G := Scripted script (Counted.mk base 0) (Counted.mk baseReady 0))
    (fun _ _ _ _ h => h.ask) (program.run n k w) hF
  refine ⟨h₁, ?_, h₃.frontier.2, h₃.ready.2⟩
  have hrec' := (play_recorder program n k hw
    ⟨ExplorationFrontierPolicy.new (Counted.mk base 0) (some script),
    ExplorationReadyTaskPolicy.new (Counted.mk baseReady 0) (some script), []⟩).1
  rw [h₂] at hrec'
  exact hrec'.trans hrec.symm

theorem script_recorded_ties : ∃ session answers, Machine.run Session.step (.fresh 7) ties = some (session, answers) ∧
    let w := World.install session.scheduler () [] 0 () 2
    let recorded := idle.play 3 () w ⟨RecordingFrontierPolicy.mk 9, RecordingReadyTaskPolicy.mk 9, []⟩
    recorded.2.recorder.length = 4 ∧ ∃ observed, extractDecisions recorded.2.recorder = some observed ∧
      let script := DecisionScript.fromObserved observed
      let scripted := idle.play 3 () w ⟨ExplorationFrontierPolicy.new (Counted.mk 0 0) (some script),
        ExplorationReadyTaskPolicy.new (Counted.mk 0 0) (some script), []⟩
      scripted.1 = recorded.1 ∧ scripted.2.recorder = recorded.2.recorder ∧
        scripted.2.frontier.inner = ⟨0, 0⟩ ∧ scripted.2.ready.inner = ⟨0, 0⟩ := by
  have h : Machine.run Session.step (.fresh 7) ties = some (_, _) := rfl
  refine ⟨_, _, h, by decide, ?_⟩
  refine Exists.imp (fun observed hs => ⟨hs.1, hs.2 0 0⟩)
    (script_recorded idle h [] 0 2 () 3 (RecordingFrontierPolicy.mk 9)
    (RecordingReadyTaskPolicy.mk 9) _ ?_)
  decide

end DesCartes.Explore
