import DesCartes.Impl.Explore.Harness
import DesCartes.Proof.Program

/-!
# Replaying a recorded run

A policy that records writes down each choice it makes, in range (`RecordsFrontier`,
`RecordsReady`). The recorder holds therefore the log of the run (`play_recorder`), and policies
that give the answers of the log make the run happen again (`Client.run_follows`).

`replay_recorded`: the replay policies do, for a trace with the decisions that were recorded.
-/

namespace DesCartes.Explore

open AsyncRuntime (ReadyTaskPolicy)

/-- How many there are to choose from. -/
def size : Question → Nat
  | .frontier _ events => events.length
  | .ready _ tasks => tasks.length

/-- The record of a choice. -/
def realized : Question × Nat → TraceEvent
  | (.frontier time events, chosen) => .schedulerDecision (.realized time events chosen)
  | (.ready time tasks, chosen) => .asyncRuntimeDecision (.realized time tasks chosen)

/-- A choice among different ids, in range. -/
def Sane (e : Question × Nat) : Prop := e.1.Distinct ∧ e.2 < size e.1

/-! ## Policies that record -/

/-- The index that the policy returns is in range, and recorded. -/
class RecordsFrontier (φ : Type) [TracedFrontierPolicy φ] : Prop where
  spec (p : φ) (r : TraceRecorder) (time : SimTime) (events : List FrontierEvent) (h : events ≠ []) :
    (TracedFrontierPolicy.choose p r time events).1 < events.length ∧ (TracedFrontierPolicy.choose p r time events).2.2 =
      r ++ [.schedulerDecision (.realized time events (TracedFrontierPolicy.choose p r time events).1)]

/-- The index that the policy returns is in range, and recorded. -/
class RecordsReady (π : Type) [TracedReadyTaskPolicy π] : Prop where
  spec (p : π) (r : TraceRecorder) (time : SimTime) (tasks : List AsyncRuntime.TaskId) (h : tasks ≠ []) :
    (TracedReadyTaskPolicy.choose p r time tasks).1 < tasks.length ∧ (TracedReadyTaskPolicy.choose p r time tasks).2.2 =
      r ++ [.asyncRuntimeDecision (.realized time tasks (TracedReadyTaskPolicy.choose p r time tasks).1)]

theorem min_length_lt {α : Type} {l : List α} (h : l ≠ []) (i : Nat) : min i (l.length - 1) < l.length := by
  have := List.length_pos_iff.mpr h
  omega

instance {φ : Type} [EventFrontierPolicy φ] : RecordsFrontier (RecordingFrontierPolicy φ) :=
  ⟨fun _ _ _ _ h => ⟨min_length_lt h _, rfl⟩⟩

instance {φ : Type} [EventFrontierPolicy φ] : RecordsFrontier (ExplorationFrontierPolicy φ) :=
  ⟨fun _ _ _ _ h => ⟨min_length_lt h _, rfl⟩⟩

instance {π : Type} [ReadyTaskPolicy π] : RecordsReady (RecordingReadyTaskPolicy π) :=
  ⟨fun _ _ _ _ h => ⟨min_length_lt h _, rfl⟩⟩

instance {π : Type} [ReadyTaskPolicy π] : RecordsReady (ExplorationReadyTaskPolicy π) :=
  ⟨fun _ _ _ _ h => ⟨min_length_lt h _, rfl⟩⟩

section
variable {κ ν φ π : Type} [TracedFrontierPolicy φ] [TracedReadyTaskPolicy π] [RecordsFrontier φ] [RecordsReady π]

theorem ask_spec (p : Policies φ π) {q : Question} (hq : q.Distinct) :
    (p.ask q).1 < size q ∧ (p.ask q).2.recorder = p.recorder ++ [realized (q, (p.ask q).1)] := by
  cases q with
  | frontier time events => exact RecordsFrontier.spec p.frontier p.recorder time events hq.2
  | ready time tasks => exact RecordsReady.spec p.ready p.recorder time tasks hq.2

/-- The recorder holds what was chosen, and that was among different ids and in range. -/
theorem play_recorder (program : Program κ ν) (n : Nat) (k : κ) {w : World ν Unit Unit}
    (hw : w.Sound) (p : Policies φ π) :
    (program.play n k w p).2.recorder = p.recorder ++ ((program.run n k w).log Policies.ask p).map realized ∧
      ∀ e ∈ (program.run n k w).log Policies.ask p, Sane e := by
  have hh := program.holds_run n k hw
  refine ⟨hh.recorded (fun p q hq => (ask_spec p hq).2) p, ?_⟩
  exact hh.log (G := fun q a => a < size q) (fun p q hq => (ask_spec p hq).1) p

end

/-! ## Replay -/

/-- The position of the sequence number of an event. -/
theorem idxOf?_seq {events : List FrontierEvent} (hn : (seqs events).Nodup) {i : Nat}
    (hi : i < events.length) :
    (seqs events).idxOf? events[i].seq = some i := by
  have hi' : i < (seqs events).length := by simpa [seqs] using hi
  have := Vec.idxOf?_getElem hn hi'
  simpa [seqs] using this

@[simp] theorem choiceSet_realized (time : SimTime) (events : List FrontierEvent) (i : Nat) :
    (SchedulerDecision.realized time events i).choiceSet = seqs events := by
  refine ite_eq_left_iff.mpr fun _ => ?_
  simp [SchedulerDecision.realized, seqs, toFrontierEntry]

/-- Replaying a choice that was recorded. -/
theorem ReplayFrontierPolicy.choose_realized {p : ReplayFrontierPolicy} {time : SimTime}
    {events : List FrontierEvent} {i : Nat} (hp : p.error = none)
    (hd : p.decisions[p.next]? = some (.realized time events i)) (hn : (seqs events).Nodup)
    (hi : i < events.length) : p.choose time events = (i, { p with next := p.next + 1 }) := by
  have hchosen : (SchedulerDecision.realized time events i).chosenSeq = some events[i].seq := by
    simp [SchedulerDecision.realized, hi]
  simp only [ReplayFrontierPolicy.choose, hp, hd, choiceSet_realized, ReplayFrontierPolicy.find,
    hchosen, idxOf?_seq hn hi]
  simp [SchedulerDecision.realized]

theorem ReplayReadyTaskPolicy.choose_realized {p : ReplayReadyTaskPolicy} {time : SimTime}
    {tasks : List AsyncRuntime.TaskId} {i : Nat} (hp : p.error = none) (hf : p.fifoFallback = false)
    (hd : p.decisions[p.next]? = some (.realized time tasks i)) (hn : tasks.Nodup)
    (hi : i < tasks.length) : p.choose time tasks = (i, { p with next := p.next + 1 }) := by
  have hchosen : (AsyncRuntimeDecision.realized time tasks i).chosenTaskId = some tasks[i] := by
    simp [AsyncRuntimeDecision.realized, hi]
  simp only [ReplayReadyTaskPolicy.choose, hp, hf, hd, ReplayReadyTaskPolicy.find, hchosen,
    Vec.idxOf?_getElem hn hi]
  simp [AsyncRuntimeDecision.realized]

/-- The records of a kind in a log. -/
def recordsOf {β : Type} (kind : TraceEvent → Option β) (l : List (Question × Nat)) : List β := (l.map realized).filterMap kind

/-- The replay policies are at the records of `l`. -/
structure Replays (p : Policies ReplayFrontierPolicy ReplayReadyTaskPolicy) (l : List (Question × Nat)) : Prop where
  sane : ∀ e ∈ l, Sane e
  frontierError : p.frontier.error = none
  frontier : p.frontier.decisions.drop p.frontier.next = recordsOf TraceEvent.schedulerDecision? l
  readyError : p.ready.error = none
  ready : p.ready.decisions.drop p.ready.next = recordsOf TraceEvent.asyncRuntimeDecision? l
  fallback : p.ready.fifoFallback = true → p.ready.decisions = []

theorem getElem?_of_drop {α : Type} {l rest : List α} {n : Nat} {x : α} (h : l.drop n = x :: rest) :
    l[n]? = some x ∧ l.drop (n + 1) = rest := by
  constructor
  · rw [← List.head?_drop, h, List.head?_cons]
  · rw [← List.tail_drop, h, List.tail_cons]

theorem Replays.ask {p : Policies ReplayFrontierPolicy ReplayReadyTaskPolicy} {q : Question} {a : Nat}
    {l : List (Question × Nat)} (h : Replays p ((q, a) :: l)) : (p.ask q).1 = a ∧ Replays (p.ask q).2 l := by
  obtain ⟨⟨hq, ha⟩, hsane⟩ := List.forall_mem_cons.mp h.sane
  cases q with
  | frontier time events =>
    obtain ⟨hd, hrest⟩ := getElem?_of_drop h.frontier
    have hchoose := ReplayFrontierPolicy.choose_realized h.frontierError hd hq.1 ha
    have hask :
        p.ask (.frontier time events) =
          (a, { p with frontier := { p.frontier with next := p.frontier.next + 1 } }) := by
      simp only [Policies.ask, TracedFrontierPolicy.choose, hchoose]
    rw [hask]
    exact ⟨rfl, hsane, h.frontierError, hrest, h.readyError, h.ready, h.fallback⟩
  | ready time tasks =>
    obtain ⟨hd, hrest⟩ := getElem?_of_drop h.ready
    have hf : p.ready.fifoFallback = false := by
      by_contra hf
      rw [h.fallback (by simpa using hf)] at hd
      simp at hd
    have hchoose := ReplayReadyTaskPolicy.choose_realized h.readyError hf hd hq.1 ha
    have hask :
        p.ask (.ready time tasks) = (a, { p with ready := { p.ready with next := p.ready.next + 1 } }) := by
      simp only [Policies.ask, TracedReadyTaskPolicy.choose, hchoose]
    rw [hask]
    exact ⟨rfl, hsane, h.frontierError, h.frontier, h.readyError, hrest, h.fallback⟩

/-- Whether it is a decision of the scheduler or of the runtime. -/
def isDecision : TraceEvent → Bool
  | .schedulerDecision _ => true
  | .asyncRuntimeDecision _ => true
  | _ => false

/-- The decisions of a kind are decisions. -/
theorem filterMap_filter_isDecision {β : Type} {kind : TraceEvent → Option β}
    (hk : ∀ e b, kind e = some b → isDecision e = true) (events : List TraceEvent) :
    (events.filter isDecision).filterMap kind = events.filterMap kind := by
  rw [List.filterMap_filter]
  refine List.filterMap_congr fun e _ => ?_
  split
  · rfl
  · rename_i hno
    cases he : kind e with
    | none => rfl
    | some b => exact absurd (hk e b he) hno

theorem isDecision_of_schedulerDecision? (e : TraceEvent) (d : SchedulerDecision)
    (h : e.schedulerDecision? = some d) :
    isDecision e = true := by
  cases e <;> first | rfl | cases h

theorem isDecision_of_asyncRuntimeDecision? (e : TraceEvent) (d : AsyncRuntimeDecision)
    (h : e.asyncRuntimeDecision? = some d) :
    isDecision e = true := by
  cases e <;> first | rfl | cases h

/-- The replay policies of a trace with the records of `l`. -/
theorem replays_fromTraceEvents {tr : List TraceEvent} {l : List (Question × Nat)} (hl : ∀ e ∈ l, Sane e)
    (htr : tr.filter isDecision = l.map realized) :
    Replays ⟨.fromTraceEvents tr, .fromTraceEvents tr, []⟩ l := by
  have hrecords : ∀ {β : Type} {kind : TraceEvent → Option β},
      (∀ e b, kind e = some b → isDecision e = true) →
        tr.filterMap kind = recordsOf kind l := by
    intro β kind hk
    rw [← filterMap_filter_isDecision hk, htr]
    rfl
  refine ⟨hl, rfl, hrecords isDecision_of_schedulerDecision?, rfl,
    hrecords isDecision_of_asyncRuntimeDecision?, fun h => ?_⟩
  exact List.isEmpty_iff.mp h

/-- A run is recorded under any policies, and run again with replay policies of a trace that has the
decisions that were recorded: it pops the same events and ends in the same state, with the same
polls on the way, and without an error. -/
theorem replay_recorded {κ ν φ π φ₀ : Type} [EventFrontierPolicy φ] [ReadyTaskPolicy π] [EventFrontierPolicy φ₀]
    (program : Program κ ν) {idSeed : BitVec 64} {ops : List (Op (Payload ν) Unit Unit φ₀)}
    {session : Session (Payload ν) Unit Unit}
    {answers : List (Answer (Payload ν))} (hr : Machine.run Session.step (.fresh idSeed) ops = some (session, answers))
    (deferred : List (SimTime × Message ν)) (key : Uuid) (spawned : Nat) (k : κ) (n : Nat) (inner : φ) (innerReady : π)
    (tr : List TraceEvent) :
    let w := World.install session.scheduler () deferred key () spawned
    let recorded := program.play n k w ⟨RecordingFrontierPolicy.mk inner, RecordingReadyTaskPolicy.mk innerReady, []⟩
    tr.filter isDecision = recorded.2.recorder →
    let replayed := program.play n k w ⟨ReplayFrontierPolicy.fromTraceEvents tr, ReplayReadyTaskPolicy.fromTraceEvents tr, []⟩
    replayed.1 = recorded.1 ∧ replayed.2.frontier.error = none ∧ replayed.2.ready.error = none := by
  intro w recorded htr replayed
  have hkept := Session.Kept.run (Session.wf_fresh idSeed) (Session.kept_fresh idSeed) hr
  have hw : w.Sound := World.sound_install hkept.numbered ..
  obtain ⟨hrec, hsane⟩ := play_recorder program n k hw
    ⟨RecordingFrontierPolicy.mk inner, RecordingReadyTaskPolicy.mk innerReady, []⟩
  rw [hrec, List.nil_append] at htr
  have hF := replays_fromTraceEvents hsane htr
  rw [← List.append_nil ((program.run n k w).log ..)] at hF
  obtain ⟨h₁, -, h₂⟩ := Client.run_follows (G := Replays) (fun _ _ _ _ h => h.ask) (program.run n k w) hF
  exact ⟨h₁, h₂.frontierError, h₂.readyError⟩

/-- Code that does nothing, and futures that are done at once. -/
def idle : Program Unit Unit :=
  ⟨fun k _ _ _ => (k, []), fun k _ _ => (k, .idle), fun k _ _ => (k, ⟨[], true, []⟩), fun k _ _ => (k, []), fun k _ => (k, [])⟩

/-- Two events at the start of a simulation. -/
def ties : List (Op (Payload Unit) Unit Unit FifoFrontierPolicy) :=
  [.schedule .zero 1 (.other ()), .schedule .zero 2 (.other ())]

/-- The policy that always returns the same index. -/
instance constReady : ReadyTaskPolicy Nat := ⟨fun i _ _ => (i, i)⟩

theorem replay_recorded_ties : ∃ session answers, Machine.run Session.step (.fresh 7) ties = some (session, answers) ∧
    let w := World.install session.scheduler () [] 0 () 2
    let recorded := idle.play 3 () w ⟨RecordingFrontierPolicy.mk 9, RecordingReadyTaskPolicy.mk 9, []⟩
    recorded.2.recorder.length = 4 ∧
    let replayed := idle.play 3 () w
      ⟨ReplayFrontierPolicy.fromTraceEvents recorded.2.recorder, ReplayReadyTaskPolicy.fromTraceEvents recorded.2.recorder, []⟩
    replayed.1 = recorded.1 ∧ replayed.2.frontier.error = none ∧ replayed.2.ready.error = none := by
  have h : Machine.run Session.step (.fresh 7) ties = some (_, _) := rfl
  exact ⟨_, _, h, by decide, replay_recorded idle h [] 0 2 () 3 9 9 _ (by decide)⟩

end DesCartes.Explore
