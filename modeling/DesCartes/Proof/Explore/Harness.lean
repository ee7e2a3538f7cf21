import DesCartes.Framework.Cursor
import DesCartes.Proof.Explore.Replay

/-!
# What a replayed run is checked for

The replay policies and the validator are cursors (`Cursor`): each compares the calls it is given
with the entries of its kind in the trace, as long as there are calls. `runReplayed_ok` says what a
run has to conform to for `run_replayed` to return `Ok`; `runReplayed_matches` says what is missing
for the run to be that of the trace. Entries that are left when the run is over are never looked at,
and the ready-task policy puts an index into range without a word.
-/

namespace DesCartes.Explore

/-- The same ids, where the trace has some. -/
def SameSet (recorded ids : List Nat) : Prop := recorded = [] ∨ Vec.sortDedup recorded = Vec.sortDedup ids

/-- An index among the entries of the list, or there are none. -/
def InRange {α : Type} (i : Nat) (l : List α) : Prop := l = [] ∨ i < l.length

/-- The same choice among the ids: that of the id, or, when no id is recorded, that of the index. -/
def SameChoice (recorded : Option Nat) (recordedIndex : Nat) (chosen : Option Nat) (chosenIndex : Nat) (ids : List Nat) : Prop :=
  match recorded with
  | some id => chosen = some id
  | none => ids = [] ∨ chosenIndex = recordedIndex

/-! ## Decisions of the scheduler -/

/-- The decision of a run is the recorded one. -/
def SchedulerDecision.Agrees (recorded run : SchedulerDecision) : Prop :=
  recorded.timeNanos = run.timeNanos ∧ SameSet recorded.choiceSet run.frontierSeqs ∧
    SameChoice recorded.chosenSeq recorded.chosenIndex run.chosenSeq run.chosenIndex run.frontierSeqs

namespace ReplayFrontierPolicy

/-- The policy after a choice. -/
def step (p : ReplayFrontierPolicy) (c : SimTime × List FrontierEvent) : ReplayFrontierPolicy := (p.choose c.1 c.2).2

/-- The decision that is made of the policy's answer, which is put into range. -/
def decide (p : ReplayFrontierPolicy) (c : SimTime × List FrontierEvent) : SchedulerDecision :=
  .realized c.1 c.2 (min (p.choose c.1 c.2).1 (c.2.length - 1))

/-- What is checked of a choice. -/
def Conforms (d : SchedulerDecision) (c : SimTime × List FrontierEvent) : Prop :=
  d.timeNanos = c.1.nanos ∧ SameSet d.choiceSet (seqs c.2) ∧
    match d.chosenSeq with
    | some chosen => chosen ∈ seqs c.2
    | none => InRange d.chosenIndex c.2

end ReplayFrontierPolicy

/-! ## Decisions of the runtime -/

/-- The decision of a run is the recorded one. -/
def AsyncRuntimeDecision.Agrees (recorded run : AsyncRuntimeDecision) : Prop :=
  recorded.timeNanos = run.timeNanos ∧ SameSet recorded.readyTaskIds run.readyTaskIds ∧
    SameChoice recorded.chosenTaskId recorded.chosenIndex run.chosenTaskId run.chosenIndex run.readyTaskIds

namespace ReplayReadyTaskPolicy

/-- The policy after a choice. -/
def step (p : ReplayReadyTaskPolicy) (c : SimTime × List AsyncRuntime.TaskId) : ReplayReadyTaskPolicy := (p.choose c.1 c.2).2

/-- The decision that is made of the policy's answer, which is put into range. -/
def decide (p : ReplayReadyTaskPolicy) (c : SimTime × List AsyncRuntime.TaskId) : AsyncRuntimeDecision :=
  .realized c.1 c.2 (min (p.choose c.1 c.2).1 (c.2.length - 1))

/-- What is checked of a choice; not the index. -/
def Conforms (d : AsyncRuntimeDecision) (c : SimTime × List AsyncRuntime.TaskId) : Prop :=
  d.timeNanos = c.1.nanos ∧ SameSet d.readyTaskIds c.2 ∧ ∀ chosen ∈ d.chosenTaskId, chosen ∈ c.2

/-- What is not checked: an index that is recorded without an id. -/
def Indexed (d : AsyncRuntimeDecision) (c : SimTime × List AsyncRuntime.TaskId) : Prop :=
  d.chosenTaskId = none → InRange d.chosenIndex c.2

end ReplayReadyTaskPolicy

theorem not_sameSet {recorded ids : List Nat} :
    (recorded ≠ [] ∧ Vec.sortDedup recorded ≠ Vec.sortDedup ids) ↔ ¬ SameSet recorded ids :=
  not_or.symm

theorem min_of_inRange {α : Type} {i : Nat} {l : List α} (h : InRange i l) (hl : l ≠ []) :
    min i (l.length - 1) = i := by
  have := h.resolve_left hl
  omega

theorem getElem?_of_idxOf? {l : List Nat} {a i : Nat} (h : l.idxOf? a = some i) :
    i < l.length ∧ l[i]? = some a := by
  obtain ⟨hi, ha, -⟩ := List.idxOf?_eq_some_iff.mp h
  exact ⟨hi, by rw [List.getElem?_eq_getElem hi, ha]⟩

namespace ReplayFrontierPolicy

theorem choose_next {p : ReplayFrontierPolicy} (hp : p.error = none) {d : SchedulerDecision}
    (hd : p.decisions[p.next]? = some d) {c : SimTime × List FrontierEvent}
    (htime : d.timeNanos = c.1.nanos) (hset : SameSet d.choiceSet (seqs c.2)) :
    p.choose c.1 c.2 = find { p with next := p.next + 1 } p.next d c.2 := by
  simp [choose, hp, hd, htime, not_sameSet, hset]

/-- A choice that conforms is the recorded one. -/
theorem choose_conforms {p : ReplayFrontierPolicy} (hp : p.error = none) {d : SchedulerDecision}
    (hd : p.decisions[p.next]? = some d) {c : SimTime × List FrontierEvent} (h : Conforms d c) :
    p.step c = { p with next := p.next + 1 } ∧ d.Agrees (p.decide c) := by
  obtain ⟨htime, hset, hchosen⟩ := h
  have hchoose := choose_next hp hd htime hset
  have hagree : ∀ i, p.choose c.1 c.2 = (i, { p with next := p.next + 1 }) →
      SameChoice d.chosenSeq d.chosenIndex (c.2[min i (c.2.length - 1)]?.map (·.seq))
        (min i (c.2.length - 1)) (seqs c.2) →
      p.step c = { p with next := p.next + 1 } ∧ d.Agrees (p.decide c) := by
    intro i hi hsame
    refine ⟨by rw [step, hi], htime, hset, ?_⟩
    simp only [decide, hi]
    exact hsame
  cases hseq : d.chosenSeq with
  | some chosen =>
    simp only [hseq] at hchosen
    obtain ⟨i, hi⟩ := Option.ne_none_iff_exists'.mp (mt List.idxOf?_eq_none_iff.mp (not_not.mpr hchosen))
    have hfind : find { p with next := p.next + 1 } p.next d c.2 = (i, { p with next := p.next + 1 }) := by
      simp only [find, hseq, hi]
    refine hagree i (hchoose.trans hfind) ?_
    obtain ⟨hlt, hget⟩ := getElem?_of_idxOf? hi
    have hmin : min i (c.2.length - 1) = i := by
      simp only [seqs, List.length_map] at hlt
      omega
    simp only [hseq, SameChoice, hmin]
    rwa [seqs, List.getElem?_map] at hget
  | none =>
    simp only [hseq] at hchosen
    by_cases he : c.2 = []
    · have hfind : find { p with next := p.next + 1 } p.next d c.2 = (0, { p with next := p.next + 1 }) := by
        simp only [find, hseq, he, if_true]
      refine hagree 0 (hchoose.trans hfind) ?_
      simp only [hseq, SameChoice]
      exact .inl (by rw [he]; rfl)
    · have hmin := min_of_inRange hchosen he
      have hfind : find { p with next := p.next + 1 } p.next d c.2 =
        (d.chosenIndex, { p with next := p.next + 1 }) := by
        simp only [find, hseq, he, if_false, hmin, if_neg (not_le.mpr (hchosen.resolve_left he))]
      refine hagree d.chosenIndex (hchoose.trans hfind) ?_
      simp only [hseq, SameChoice]
      exact .inr hmin

/-- One that does not stops the policy. -/
theorem choose_diverges {p : ReplayFrontierPolicy} (hp : p.error = none) {d : SchedulerDecision}
    (hd : p.decisions[p.next]? = some d) {c : SimTime × List FrontierEvent} (h : ¬ Conforms d c) :
    (p.step c).error ≠ none := by
  by_cases htime : d.timeNanos = c.1.nanos
  · by_cases hset : SameSet d.choiceSet (seqs c.2)
    · rw [step, choose_next hp hd htime hset]
      cases hseq : d.chosenSeq with
      | some chosen =>
        have hno : (seqs c.2).idxOf? chosen = none := by
          refine List.idxOf?_eq_none_iff.mpr fun hmem => h ⟨htime, hset, ?_⟩
          simpa only [hseq] using hmem
        simp [find, hseq, hno, fail]
      | none =>
        have hno : ¬ InRange d.chosenIndex c.2 := fun hin => h ⟨htime, hset, by simpa only [hseq] using hin⟩
        obtain ⟨he, hle⟩ := not_or.mp hno
        simp [find, hseq, he, not_lt.mp hle, fail]
    · simp [step, choose, hp, hd, htime, not_sameSet, hset, fail]
  · simp [step, choose, hp, hd, htime, fail]

/-- The decisions that are left. -/
def rest (p : ReplayFrontierPolicy) : List SchedulerDecision := p.decisions.drop p.next

theorem cursor : Cursor step (fun p => p.error = none) rest Conforms where
  stopped p c h := by
    have hstep : p.step c = p := by simp [step, choose, Option.isSome_iff_ne_none.mpr h]
    rwa [hstep]
  out p c h := by
    have hd : p.decisions[p.next]? = none := List.getElem?_eq_none (List.drop_eq_nil_iff.mp h)
    cases hp : p.error with
    | none => simp [step, choose, hp, hd, fail]
    | some e => simp [step, choose, hp]
  next p c d ds hp h := by
    obtain ⟨hd, hds⟩ := getElem?_of_drop h
    by_cases hc : Conforms d c
    · obtain ⟨hstep, -⟩ := choose_conforms hp hd hc
      rw [hstep]
      exact ⟨iff_of_true hp hc, fun _ => hds⟩
    · have hno := choose_diverges hp hd hc
      exact ⟨iff_of_false hno hc, fun he => absurd he hno⟩

end ReplayFrontierPolicy

namespace ReplayReadyTaskPolicy

theorem choose_next {p : ReplayReadyTaskPolicy} (hp : p.error = none) (hf : p.fifoFallback = false)
    {d : AsyncRuntimeDecision} (hd : p.decisions[p.next]? = some d)
    {c : SimTime × List AsyncRuntime.TaskId} (htime : d.timeNanos = c.1.nanos)
    (hset : SameSet d.readyTaskIds c.2) :
    p.choose c.1 c.2 = find { p with next := p.next + 1 } p.next d c.2 := by
  simp [choose, hp, hf, hd, htime, not_sameSet, hset]

/-- A choice that conforms is the recorded one if the index did not have to be put into range. -/
theorem choose_conforms {p : ReplayReadyTaskPolicy} (hp : p.error = none)
    (hf : p.fifoFallback = false) {d : AsyncRuntimeDecision} (hd : p.decisions[p.next]? = some d)
    {c : SimTime × List AsyncRuntime.TaskId} (h : Conforms d c) :
    p.step c = { p with next := p.next + 1 } ∧ (d.Agrees (p.decide c) ↔ Indexed d c) := by
  obtain ⟨htime, hset, hchosen⟩ := h
  have hchoose := choose_next hp hf hd htime hset
  have hagree : ∀ i, p.choose c.1 c.2 = (i, { p with next := p.next + 1 }) →
      (SameChoice d.chosenTaskId d.chosenIndex c.2[min i (c.2.length - 1)]?
        (min i (c.2.length - 1)) c.2 ↔ Indexed d c) →
      p.step c = { p with next := p.next + 1 } ∧ (d.Agrees (p.decide c) ↔ Indexed d c) := by
    intro i hi hsame
    refine ⟨by rw [step, hi], ?_⟩
    rw [← hsame, decide, hi]
    exact (and_iff_right htime).trans (and_iff_right hset)
  cases htask : d.chosenTaskId with
  | some chosen =>
    obtain ⟨i, hi⟩ := Option.ne_none_iff_exists'.mp
      (mt List.idxOf?_eq_none_iff.mp (not_not.mpr (hchosen chosen htask)))
    have hfind : find { p with next := p.next + 1 } p.next d c.2 = (i, { p with next := p.next + 1 }) := by
      simp only [find, htask, hi]
    refine hagree i (hchoose.trans hfind) ?_
    obtain ⟨hlt, hget⟩ := getElem?_of_idxOf? hi
    have hmin : min i (c.2.length - 1) = i := by omega
    simp only [htask, SameChoice, hmin, hget, Indexed]
    exact iff_of_true trivial fun h => absurd h (Option.some_ne_none _)
  | none =>
    by_cases he : c.2 = []
    · have hfind : find { p with next := p.next + 1 } p.next d c.2 = (0, { p with next := p.next + 1 }) := by
        simp only [find, htask, he, if_true]
      refine hagree 0 (hchoose.trans hfind) ?_
      simp only [htask, SameChoice, Indexed]
      exact iff_of_true (.inl he) fun _ => .inl he
    · have hfind : find { p with next := p.next + 1 } p.next d c.2 =
          (min d.chosenIndex (c.2.length - 1), { p with next := p.next + 1 }) := by
        simp only [find, htask, he, if_false]
      refine hagree _ (hchoose.trans hfind) ?_
      have hlen := List.length_pos_iff.mpr he
      simp only [htask, SameChoice, Indexed, InRange, he, false_or, forall_const]
      omega

/-- One that does not stops the policy. -/
theorem choose_diverges {p : ReplayReadyTaskPolicy} (hp : p.error = none)
    (hf : p.fifoFallback = false) {d : AsyncRuntimeDecision} (hd : p.decisions[p.next]? = some d)
    {c : SimTime × List AsyncRuntime.TaskId} (h : ¬ Conforms d c) : (p.step c).error ≠ none := by
  by_cases htime : d.timeNanos = c.1.nanos
  · by_cases hset : SameSet d.readyTaskIds c.2
    · obtain ⟨chosen, htask, hno⟩ : ∃ chosen, d.chosenTaskId = some chosen ∧ chosen ∉ c.2 := by
        by_contra hall
        push Not at hall
        exact h ⟨htime, hset, hall⟩
      rw [step, choose_next hp hf hd htime hset]
      simp [find, htask, List.idxOf?_eq_none_iff.mpr hno, fail]
    · simp [step, choose, hp, hf, hd, htime, not_sameSet, hset, fail]
  · simp [step, choose, hp, hf, hd, htime, fail]

/-- The decisions that are left. -/
def rest (p : ReplayReadyTaskPolicy) : List AsyncRuntimeDecision := p.decisions.drop p.next

/-- A policy that has decisions, without an error. -/
def Replaying (p : ReplayReadyTaskPolicy) : Prop := p.error = none ∧ p.fifoFallback = false

@[simp] theorem fifoFallback_step (p : ReplayReadyTaskPolicy) (c : SimTime × List AsyncRuntime.TaskId) :
    (p.step c).fifoFallback = p.fifoFallback := by
  simp only [step, choose, find, fail]
  grind

theorem fifoFallback_foldl (p : ReplayReadyTaskPolicy) (choices : List (SimTime × List AsyncRuntime.TaskId)) :
    (choices.foldl step p).fifoFallback = p.fifoFallback := by
  induction choices generalizing p with
  | nil => rfl
  | cons c choices ih => rw [List.foldl_cons, ih, fifoFallback_step]

theorem error_foldl_fifo {p : ReplayReadyTaskPolicy} (hp : p.error = none) (hf : p.fifoFallback = true)
    (choices : List (SimTime × List AsyncRuntime.TaskId)) : (choices.foldl step p).error = none := by
  induction choices generalizing p with
  | nil => exact hp
  | cons c choices ih => exact ih (by simp [step, choose, hp, hf]) (by rw [fifoFallback_step, hf])

theorem cursor : Cursor step Replaying rest Conforms where
  stopped p c h := by
    by_cases hf : p.fifoFallback = false
    · have hp : p.error ≠ none := fun hp => h ⟨hp, hf⟩
      have hstep : p.step c = p := by simp [step, choose, Option.isSome_iff_ne_none.mpr hp]
      rwa [hstep]
    · exact fun hok => hf ((fifoFallback_step p c).symm.trans hok.2)
  out p c h := by
    rintro ⟨hok, hf⟩
    rw [fifoFallback_step] at hf
    have hd : p.decisions[p.next]? = none := List.getElem?_eq_none (List.drop_eq_nil_iff.mp h)
    cases hp : p.error <;> simp [step, choose, hp, hf, hd, fail] at hok
  next p c d ds hp h := by
    obtain ⟨hd, hds⟩ := getElem?_of_drop h
    by_cases hc : Conforms d c
    · obtain ⟨hstep, -⟩ := choose_conforms hp.1 hp.2 hd hc
      rw [hstep]
      exact ⟨iff_of_true hp hc, fun _ => hds⟩
    · have hno := choose_diverges hp.1 hp.2 hd hc
      exact ⟨iff_of_false (fun hok => hno hok.1) hc, fun hok => absurd hok.1 hno⟩

end ReplayReadyTaskPolicy

namespace ReplayConcurrencyValidator

/-- The validator after an event, if it expects some. -/
def step (v : ReplayConcurrencyValidator) (event : ConcurrencyTraceEvent) : ReplayConcurrencyValidator :=
  if v.hasExpectedEvents then v.record event else v

/-- The events that are left. -/
def rest (v : ReplayConcurrencyValidator) : List ConcurrencyTraceEvent := v.expected.drop v.next

theorem cursor : Cursor record (fun v => v.error = none) rest Eq where
  stopped v event h := by
    have hrecord : v.record event = v := by simp [record, Option.isSome_iff_ne_none.mpr h]
    rwa [hrecord]
  out v event h := by
    have hd : v.expected[v.next]? = none := List.getElem?_eq_none (List.drop_eq_nil_iff.mp h)
    cases hv : v.error <;> simp [record, hv, hd]
  next v event e es hv h := by
    obtain ⟨he, hes⟩ := getElem?_of_drop h
    by_cases hc : e = event <;> simp [record, hv, he, hc, rest]
    exact hes

@[simp] theorem expected_record (v : ReplayConcurrencyValidator) (event : ConcurrencyTraceEvent) :
    (v.record event).expected = v.expected := by
  unfold record
  grind

theorem foldl_step (v : ReplayConcurrencyValidator) (events : List ConcurrencyTraceEvent) :
    events.foldl step v = if v.expected = [] then v else events.foldl record v := by
  induction events generalizing v with
  | nil => exact (ite_self v).symm
  | cons event events ih =>
    rw [List.foldl_cons, ih]
    by_cases h : v.expected = [] <;> simp [step, hasExpectedEvents, h]

end ReplayConcurrencyValidator

/-! ## Replayed runs -/

/-- Each of the three is given the calls of its kind. -/
theorem Replayers.foldl_call (cfg : HarnessConfig) (calls : List Call) (r : Replayers) :
    (calls.foldl (call cfg) r).frontier =
      r.frontier.map ((calls.filterMap Call.frontier?).foldl ReplayFrontierPolicy.step) ∧
    (calls.foldl (call cfg) r).ready =
      r.ready.map ((calls.filterMap Call.ready?).foldl ReplayReadyTaskPolicy.step) ∧
    (calls.foldl (call cfg) r).concurrency =
      r.concurrency.map ((calls.filterMap Call.concurrency?).foldl ReplayConcurrencyValidator.step) := by
  induction calls generalizing r with
  | nil => exact ⟨Option.map_id'.symm, Option.map_id'.symm, Option.map_id'.symm⟩
  | cons c calls ih =>
    obtain ⟨h₁, h₂, h₃⟩ := ih (r.call cfg c)
    rw [List.foldl_cons, h₁, h₂, h₃]
    cases c with
    | frontier time events => exact ⟨Option.map_map .., rfl, rfl⟩
    | ready time tasks => exact ⟨rfl, Option.map_map .., rfl⟩
    | concurrency event => exact ⟨rfl, rfl, Option.map_map ..⟩
    | draw draw => exact ⟨rfl, rfl, rfl⟩

section
variable (cfg : HarnessConfig) (tr : List TraceEvent) (calls : List Call)

/-- The calls of the frontier policy in a run. -/
def frontierCalls : List (SimTime × List FrontierEvent) := (callsOf cfg calls).filterMap Call.frontier?

/-- The calls of the ready-task policy in a run. -/
def readyCalls : List (SimTime × List AsyncRuntime.TaskId) := (callsOf cfg calls).filterMap Call.ready?

/-- The events of primitives in a run. -/
def concurrencyEvents : List ConcurrencyTraceEvent := (callsOf cfg calls).filterMap Call.concurrency?

/-- The decisions and events of the run are those of the trace, one for one, for each kind that the
trace has. -/
structure Matches : Prop where
  frontier : tr.filterMap TraceEvent.schedulerDecision? ≠ [] →
    List.Forall₂ SchedulerDecision.Agrees (tr.filterMap TraceEvent.schedulerDecision?)
      (answered ReplayFrontierPolicy.step ReplayFrontierPolicy.decide (.fromTraceEvents tr) (frontierCalls cfg calls))
  ready : tr.filterMap TraceEvent.asyncRuntimeDecision? ≠ [] →
    List.Forall₂ AsyncRuntimeDecision.Agrees (tr.filterMap TraceEvent.asyncRuntimeDecision?)
      (answered ReplayReadyTaskPolicy.step ReplayReadyTaskPolicy.decide (.fromTraceEvents tr) (readyCalls cfg calls))
  concurrency : tr.filterMap TraceEvent.concurrency? ≠ [] → tr.filterMap TraceEvent.concurrency? = concurrencyEvents cfg calls

/-- Each call conforms to the entry of its kind in its place. -/
structure Conforming : Prop where
  frontier : tr.filterMap TraceEvent.schedulerDecision? ≠ [] → List.Forall₂ ReplayFrontierPolicy.Conforms
    ((tr.filterMap TraceEvent.schedulerDecision?).take (frontierCalls cfg calls).length) (frontierCalls cfg calls)
  ready : tr.filterMap TraceEvent.asyncRuntimeDecision? ≠ [] → List.Forall₂ ReplayReadyTaskPolicy.Conforms
    ((tr.filterMap TraceEvent.asyncRuntimeDecision?).take (readyCalls cfg calls).length) (readyCalls cfg calls)
  concurrency : tr.filterMap TraceEvent.concurrency? ≠ [] → concurrencyEvents cfg calls <+: tr.filterMap TraceEvent.concurrency?

/-- The run has as many calls of each kind as the trace has entries, and none at an index out of range. -/
structure Complete : Prop where
  frontier : tr.filterMap TraceEvent.schedulerDecision? ≠ [] →
    (frontierCalls cfg calls).length = (tr.filterMap TraceEvent.schedulerDecision?).length
  ready : tr.filterMap TraceEvent.asyncRuntimeDecision? ≠ [] →
    (readyCalls cfg calls).length = (tr.filterMap TraceEvent.asyncRuntimeDecision?).length ∧
      ∀ e ∈ (tr.filterMap TraceEvent.asyncRuntimeDecision?).zip (readyCalls cfg calls), ReplayReadyTaskPolicy.Indexed e.1 e.2
  concurrency : tr.filterMap TraceEvent.concurrency? ≠ [] →
    (concurrencyEvents cfg calls).length = (tr.filterMap TraceEvent.concurrency?).length

variable {cfg tr calls}

/-- The frontier policy has no error when the calls conform. -/
theorem frontier_error (choices : List (SimTime × List FrontierEvent)) :
    (choices.foldl ReplayFrontierPolicy.step (.fromTraceEvents tr)).error = none ↔
      List.Forall₂ ReplayFrontierPolicy.Conforms
        ((tr.filterMap TraceEvent.schedulerDecision?).take choices.length) choices :=
  ReplayFrontierPolicy.cursor.ok_foldl (s := .fromTraceEvents tr) rfl

theorem replaying_fromTraceEvents (h : tr.filterMap TraceEvent.asyncRuntimeDecision? ≠ []) :
    (ReplayReadyTaskPolicy.fromTraceEvents tr).Replaying :=
  ⟨rfl, List.isEmpty_eq_false_iff.mpr h⟩

theorem ready_replaying (h : tr.filterMap TraceEvent.asyncRuntimeDecision? ≠ [])
    (choices : List (SimTime × List AsyncRuntime.TaskId)) :
    (choices.foldl ReplayReadyTaskPolicy.step (.fromTraceEvents tr)).error = none ↔
      (choices.foldl ReplayReadyTaskPolicy.step (.fromTraceEvents tr)).Replaying :=
  (and_iff_left ((ReplayReadyTaskPolicy.fifoFallback_foldl _ choices).trans
    (replaying_fromTraceEvents h).2)).symm

theorem ready_error (choices : List (SimTime × List AsyncRuntime.TaskId)) :
    (choices.foldl ReplayReadyTaskPolicy.step (.fromTraceEvents tr)).error = none ↔
      (tr.filterMap TraceEvent.asyncRuntimeDecision? ≠ [] → List.Forall₂ ReplayReadyTaskPolicy.Conforms
        ((tr.filterMap TraceEvent.asyncRuntimeDecision?).take choices.length) choices) := by
  by_cases h : tr.filterMap TraceEvent.asyncRuntimeDecision? = []
  · have hf : (ReplayReadyTaskPolicy.fromTraceEvents tr).fifoFallback = true := List.isEmpty_iff.mpr h
    exact iff_of_true (ReplayReadyTaskPolicy.error_foldl_fifo rfl hf choices) fun hne => absurd h hne
  · rw [ready_replaying h]
    exact (ReplayReadyTaskPolicy.cursor.ok_foldl (replaying_fromTraceEvents h)).trans (imp_iff_right h).symm

theorem concurrency_error (events : List ConcurrencyTraceEvent) :
    (events.foldl ReplayConcurrencyValidator.step (.fromTraceEvents tr)).error = none ↔
      (tr.filterMap TraceEvent.concurrency? ≠ [] → events <+: tr.filterMap TraceEvent.concurrency?) := by
  have he : (ReplayConcurrencyValidator.fromTraceEvents tr).expected =
    tr.filterMap TraceEvent.concurrency? := rfl
  rw [ReplayConcurrencyValidator.foldl_step, he]
  by_cases h : tr.filterMap TraceEvent.concurrency? = []
  · rw [if_pos h]
    exact iff_of_true rfl fun hne => absurd h hne
  · rw [if_neg h, imp_iff_right h, List.prefix_iff_eq_take, eq_comm (a := events), ← List.forall₂_eq_eq_eq]
    exact ReplayConcurrencyValidator.cursor.ok_foldl (s := .fromTraceEvents tr) rfl

theorem any_isSome_iff {α β : Type} (f : α → Option β) (l : List α) :
    l.any (fun a => (f a).isSome) = true ↔ l.filterMap f ≠ [] := by
  simp [List.filterMap_eq_nil_iff, Option.isSome_iff_ne_none]

/-- Without the runtime there are no calls of its kinds. -/
theorem calls_of_not_installTokio (h : cfg.installTokio = false) :
    readyCalls cfg calls = [] ∧ concurrencyEvents cfg calls = [] := by
  have hnone : ∀ c ∈ callsOf cfg calls, c.ready? = none ∧ c.concurrency? = none := by
    intro c hc
    simp only [callsOf, h] at hc
    have hu := (List.mem_filter.mp hc).2
    cases c with
    | frontier time events => exact ⟨rfl, rfl⟩
    | draw draw => exact ⟨rfl, rfl⟩
    | ready time tasks => cases hu
    | concurrency event => cases hu
  exact ⟨List.filterMap_eq_nil_iff.mpr fun c hc => (hnone c hc).1,
    List.filterMap_eq_nil_iff.mpr fun c hc => (hnone c hc).2⟩

/-- No error is stored when the calls conform. -/
theorem error_eq_none_iff :
    ((callsOf cfg calls).foldl (Replayers.call cfg) (.install cfg tr)).error = none ↔
    Conforming cfg tr calls := by
  obtain ⟨h₁, h₂, h₃⟩ := Replayers.foldl_call cfg (callsOf cfg calls) (.install cfg tr)
  have hfrontier : ((callsOf cfg calls).foldl (Replayers.call cfg) (.install cfg tr)).frontier.bind
      (·.error) = none ↔
        (tr.filterMap TraceEvent.schedulerDecision? ≠ [] → List.Forall₂ ReplayFrontierPolicy.Conforms
          ((tr.filterMap TraceEvent.schedulerDecision?).take (frontierCalls cfg calls).length)
          (frontierCalls cfg calls)) := by
    rw [h₁, Replayers.install, ← any_isSome_iff]
    split
    · rename_i h
      rw [imp_iff_right h]
      exact frontier_error _
    · rename_i h
      exact iff_of_true rfl fun hany => absurd hany h
  have hready : ((callsOf cfg calls).foldl (Replayers.call cfg) (.install cfg tr)).ready.bind
      (·.error) = none ↔
        (tr.filterMap TraceEvent.asyncRuntimeDecision? ≠ [] → List.Forall₂ ReplayReadyTaskPolicy.Conforms
          ((tr.filterMap TraceEvent.asyncRuntimeDecision?).take (readyCalls cfg calls).length)
          (readyCalls cfg calls)) := by
    rw [h₂, Replayers.install]
    cases h : cfg.installTokio with
    | true => exact ready_error _
    | false =>
      rw [(calls_of_not_installTokio h).1]
      exact iff_of_true rfl fun _ => .nil
  have hconcurrency :
      ((callsOf cfg calls).foldl (Replayers.call cfg) (.install cfg tr)).concurrency.bind (·.error) = none ↔
      (tr.filterMap TraceEvent.concurrency? ≠ [] →
        concurrencyEvents cfg calls <+: tr.filterMap TraceEvent.concurrency?) := by
    rw [h₃, Replayers.install]
    cases h : cfg.installTokio with
    | true => exact concurrency_error _
    | false =>
      rw [(calls_of_not_installTokio h).2]
      exact iff_of_true rfl fun _ => List.nil_prefix
  rw [Replayers.error, Option.or_eq_none_iff, Option.or_eq_none_iff, Option.map_eq_none_iff,
    Option.map_eq_none_iff,
    Option.map_eq_none_iff, hready, hfrontier, hconcurrency]
  exact ⟨fun h => ⟨h.2.1, h.1, h.2.2⟩, fun h => ⟨h.ready, h.frontier, h.concurrency⟩⟩

/-- When `run_replayed` returns `Ok`. -/
theorem runReplayed_ok {R : Type} {outcome : Except String R} {written : Bool} :
    (∃ r, runReplayed cfg tr calls outcome written = .ok r) ↔
      cfg.frontier = false ∧ cfg.tokioReady = false ∧ Conforming cfg tr calls ∧ outcome.isOk = true ∧
      written = true := by
  rw [← error_eq_none_iff, runReplayed]
  cases cfg.frontier with
  | true => simp
  | false =>
    cases cfg.tokioReady with
    | true => simp
    | false =>
      cases h : ((callsOf cfg calls).foldl (Replayers.call cfg) (.install cfg tr)).error with
      | some error => simp [h]
      | none => cases outcome <;> cases written <;> simp [h, Except.isOk, Except.toBool]

/-- What a run that is not reported lacks to be the one of the trace. -/
theorem runReplayed_matches (h : Conforming cfg tr calls) : Matches cfg tr calls ↔ Complete cfg tr calls := by
  have hfrontier (hne : tr.filterMap TraceEvent.schedulerDecision? ≠ []) :
      List.Forall₂ SchedulerDecision.Agrees (tr.filterMap TraceEvent.schedulerDecision?)
        (answered ReplayFrontierPolicy.step ReplayFrontierPolicy.decide (.fromTraceEvents tr)
          (frontierCalls cfg calls)) ↔
      (frontierCalls cfg calls).length = (tr.filterMap TraceEvent.schedulerDecision?).length := by
    refine (ReplayFrontierPolicy.cursor.forall₂_answered (s := .fromTraceEvents tr) (E := fun _ _ => True)
      (fun p c d ds hp hr hd => ?_) ((frontier_error _).mpr (h.frontier hne))).trans
      (and_iff_left fun _ _ => trivial)
    exact iff_of_true (ReplayFrontierPolicy.choose_conforms hp (getElem?_of_drop hr).1 hd).2 trivial
  have hready (hne : tr.filterMap TraceEvent.asyncRuntimeDecision? ≠ []) :
      List.Forall₂ AsyncRuntimeDecision.Agrees (tr.filterMap TraceEvent.asyncRuntimeDecision?)
        (answered ReplayReadyTaskPolicy.step ReplayReadyTaskPolicy.decide (.fromTraceEvents tr)
          (readyCalls cfg calls)) ↔
      (readyCalls cfg calls).length = (tr.filterMap TraceEvent.asyncRuntimeDecision?).length ∧
        ∀ e ∈ (tr.filterMap TraceEvent.asyncRuntimeDecision?).zip (readyCalls cfg calls),
        ReplayReadyTaskPolicy.Indexed e.1 e.2 := by
    have hok := (ready_replaying hne _).mp ((ready_error _).mpr fun _ => h.ready hne)
    refine ReplayReadyTaskPolicy.cursor.forall₂_answered (fun p c d ds hp hr hd => ?_) hok
    exact (ReplayReadyTaskPolicy.choose_conforms hp.1 hp.2 (getElem?_of_drop hr).1 hd).2
  have hconcurrency (hne : tr.filterMap TraceEvent.concurrency? ≠ []) :
      tr.filterMap TraceEvent.concurrency? = concurrencyEvents cfg calls ↔
        (concurrencyEvents cfg calls).length = (tr.filterMap TraceEvent.concurrency?).length :=
    ⟨fun e => congrArg _ e.symm, fun e => ((h.concurrency hne).eq_of_length e).symm⟩
  constructor
  · exact fun hm => ⟨fun hne => (hfrontier hne).mp (hm.frontier hne),
      fun hne => (hready hne).mp (hm.ready hne),
      fun hne => (hconcurrency hne).mp (hm.concurrency hne)⟩
  · exact fun hc => ⟨fun hne => (hfrontier hne).mpr (hc.frontier hne),
      fun hne => (hready hne).mpr (hc.ready hne),
      fun hne => (hconcurrency hne).mpr (hc.concurrency hne)⟩

end

/-- `run_replayed` returns `Ok` only for the run of the trace exactly when a run that conforms as
far as it goes makes as many calls of each kind as the trace has entries, at indices that are in
range. -/
theorem runReplayed_reports_iff {R : Type} (cfg : HarnessConfig) (tr : List TraceEvent) (calls : List Call)
    (outcome : Except String R) (written : Bool) :
    ((∃ r, runReplayed cfg tr calls outcome written = .ok r) → Matches cfg tr calls) ↔
      (cfg.frontier = false ∧ cfg.tokioReady = false ∧ Conforming cfg tr calls ∧ outcome.isOk = true ∧ written = true →
        Complete cfg tr calls) := by
  rw [runReplayed_ok]
  constructor
  · intro h hok
    exact (runReplayed_matches hok.2.2.1).mp (h hok)
  · intro h hok
    exact (runReplayed_matches hok.2.2.1).mpr (h hok)

/-- A trace with an entry of each kind, and a run that does nothing. -/
theorem runReplayed_not_reported :
    let cfg : HarnessConfig := ⟨false, false, true, true⟩
    let tr : List TraceEvent :=
      [.schedulerDecision (.realized .zero [⟨1, .task, none, none⟩, ⟨2, .task, none, none⟩] 1),
        .asyncRuntimeDecision (.realized .zero [1, 2] 1), .concurrency ⟨some 0, 1, .mutexAcquire 0⟩]
    ¬ ((∃ r, runReplayed cfg tr [] (.ok ()) true = .ok r) → Matches cfg tr []) := by
  intro cfg tr h
  have hm := h ⟨((), []), rfl⟩
  exact absurd (hm.concurrency (by decide)) (by decide)

end DesCartes.Explore
