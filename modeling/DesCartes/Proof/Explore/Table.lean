import DesCartes.Framework.HashMap
import DesCartes.Impl.Explore.Policy
import DesCartes.Proof.Explore.Script

/-!
# Table policies and scripts

A table that was built by `set_deterministic` and `remove` has normalized keys and deterministic
entries (`Plain`), so the script made of it has the same choice for each key, in whatever order its
entries come (`get_toDecisionScript`).

`table_exploration`: the policies with a table do at every choice what the exploration policies with
the script do.
-/

namespace DesCartes.Explore

open AsyncRuntime (ReadyTaskPolicy)

/-- The id of a deterministic entry. -/
def ActionDistribution.chosenId? : ActionDistribution → Option Nat
  | deterministic chosenId => some chosenId
  | categorical .. => none

/-- An entry with a normalized key, and deterministic. -/
def PlainEntry (entry : Sigma fun _ : DecisionKey => ActionDistribution) : Prop :=
  entry.1.normalized = entry.1 ∧ ∃ chosenId, entry.2 = .deterministic chosenId

/-- All entries are plain. -/
def TablePolicy.Plain (t : TablePolicy) : Prop := ∀ entry ∈ t.table.entries, PlainEntry entry

theorem TablePolicy.plain_iff {t : TablePolicy} :
    t.Plain ↔ ∀ key a, t.table.lookup key = some a → PlainEntry ⟨key, a⟩ := by
  constructor
  · exact fun h key a ha => h _ (AList.mem_lookup_iff.mp ha)
  · exact fun h entry he => h entry.1 entry.2 (AList.mem_lookup_iff.mpr he)

theorem TablePolicy.plain_new : new.Plain := fun _ he => absurd he List.not_mem_nil

theorem TablePolicy.Plain.setDeterministic {t : TablePolicy} (ht : t.Plain) (k : DecisionKey)
    (chosenId : Nat) :
    (t.setDeterministic k chosenId).Plain := by
  rw [plain_iff] at ht ⊢
  intro key a ha
  rcases AList.lookup_insert_eq_some.mp ha with ⟨rfl, rfl⟩ | ⟨-, ha⟩
  · exact ⟨DecisionKey.normalized_normalized k, chosenId, rfl⟩
  · exact ht key a ha

theorem TablePolicy.plain_build (ops : List TableOp) : (build ops).Plain := by
  refine List.foldlRecOn ops _ plain_new fun t ht op _ => ?_
  cases op with
  | setDeterministic k c => exact ht.setDeterministic k c
  | remove k =>
    rw [plain_iff] at ht ⊢
    intro key a ha
    exact ht key a (AList.lookup_erase_eq_some.mp ha).2

/-- The keys are normalized. -/
def TablePolicy.Normalized (t : TablePolicy) : Prop := ∀ entry ∈ t.table.entries, entry.1.normalized = entry.1

theorem TablePolicy.Plain.normalized {t : TablePolicy} (ht : t.Plain) : t.Normalized :=
  fun entry he => (ht entry he).1

/-- What the script of some entries has, made on top of another one. -/
theorem get_foldl_entries {entries : List (Sigma fun _ : DecisionKey => ActionDistribution)}
    (hp : ∀ entry ∈ entries, entry.1.normalized = entry.1) (hn : entries.NodupKeys)
    (script : DecisionScript) {key : DecisionKey} (hk : key.normalized = key) :
    (entries.foldl TablePolicy.insertEntry script).get key =
      ((entries.dlookup key).bind ActionDistribution.chosenId?).or (script.get key) := by
  induction entries generalizing script with
  | nil => rfl
  | cons entry entries ih =>
    obtain ⟨hnorm, hp'⟩ := List.forall_mem_cons.mp hp
    obtain ⟨hnotin, hn'⟩ := List.nodupKeys_cons.mp hn
    obtain ⟨key', a⟩ := entry
    simp only at hnorm
    rw [List.foldl_cons, ih hp' hn']
    by_cases e : key = key'
    · subst e
      rw [List.dlookup_cons_eq, List.dlookup_eq_none.mpr hnotin]
      cases a <;> simp [TablePolicy.insertEntry, DecisionScript.get, DecisionScript.insert,
        ActionDistribution.chosenId?]
    · rw [List.dlookup_cons_ne _ _ e]
      refine congrArg _ ?_
      cases a with
      | deterministic c => exact Function.update_of_ne (by rw [hk, hnorm]; exact e) ..
      | categorical ids weights => rfl

theorem get_toDecisionScript {t : TablePolicy} (ht : t.Normalized)
    {entries : List (Sigma fun _ : DecisionKey => ActionDistribution)}
    (he : entries.Perm t.table.entries) {key : DecisionKey} (hk : key.normalized = key) :
    (TablePolicy.toDecisionScript entries).get key =
      (t.table.lookup key).bind ActionDistribution.chosenId? := by
  have hn : entries.NodupKeys := (List.perm_nodupKeys he).mpr t.table.nodupKeys
  rw [TablePolicy.toDecisionScript, get_foldl_entries (fun entry hm => ht entry (he.mem_iff.mp hm)) hn _ hk,
    List.perm_dlookup key hn he]
  exact Option.or_none

theorem TablePolicy.chooseFromKey_eq {γ : Type} [Sampler γ] {t : TablePolicy} (ht : t.Plain)
    (key : DecisionKey) (rng : γ) :
    t.chooseFromKey key rng = ((t.table.lookup key).bind ActionDistribution.chosenId?, rng) := by
  unfold chooseFromKey
  split
  · rename_i h
    rw [h]
    rfl
  · rename_i c h
    rw [h]
    rfl
  · rename_i ids weights h
    obtain ⟨-, c, hc⟩ := plain_iff.mp ht key _ h
    cases hc

/-! ## The two kinds of policies -/

/-- The position of the id that a table without weights has for the decision is the one that its
script forces. -/
theorem forced_toDecisionScript {γ : Type} [Sampler γ] {t : TablePolicy} (ht : t.Plain)
    {entries : List (Sigma fun _ : DecisionKey => ActionDistribution)}
    (he : entries.Perm t.table.entries) {key : DecisionKey} (hk : key.normalized = key)
    (ids : List Nat) (rng : γ) :
    forced (some (TablePolicy.toDecisionScript entries)) key ids =
      (t.chooseFromKey key rng).1.bind ids.idxOf? := by
  rw [TablePolicy.chooseFromKey_eq ht, ← get_toDecisionScript ht.normalized he hk, forced]
  cases (TablePolicy.toDecisionScript entries).get key <;> rfl

section
variable {φ π γ : Type} [EventFrontierPolicy φ] [ReadyTaskPolicy π] [Sampler γ]

/-- The exploration policy with a script in the place of the table. -/
def TableFrontierPolicy.explore (p : TableFrontierPolicy φ γ) (script : DecisionScript) : ExplorationFrontierPolicy φ :=
  ⟨p.fallback, some script, p.nextOrdinal⟩

@[inherit_doc TableFrontierPolicy.explore]
def TableReadyTaskPolicy.explore (p : TableReadyTaskPolicy π γ) (script : DecisionScript) : ExplorationReadyTaskPolicy π :=
  ⟨p.fallback, some script, p.nextOrdinal⟩

theorem TableFrontierPolicy.choose_explore {p : TableFrontierPolicy φ γ} (hp : p.policy.Plain)
    {entries : List (Sigma fun _ : DecisionKey => ActionDistribution)}
    (he : entries.Perm p.policy.table.entries) (r : TraceRecorder) (time : SimTime)
    (events : List FrontierEvent) :
    (p.explore (TablePolicy.toDecisionScript entries)).choose r time events =
      ((p.choose r time events).1,
        (p.choose r time events).2.1.explore (TablePolicy.toDecisionScript entries),
        (p.choose r time events).2.2) ∧
    (p.choose r time events).2.1.policy = p.policy := by
  have hf := forced_toDecisionScript hp he
    (DecisionKey.normalized_new .frontier time.nanos p.nextOrdinal (seqs events))
    (seqs events) p.rng
  simp only [TableFrontierPolicy.choose, ExplorationFrontierPolicy.choose, explore, hf]
  cases (p.policy.chooseFromKey (.new .frontier time.nanos p.nextOrdinal (seqs events)) p.rng).1 with
  | none => exact ⟨rfl, rfl⟩
  | some chosen =>
    simp only [Option.bind_some]
    cases (seqs events).idxOf? chosen <;> exact ⟨rfl, rfl⟩

theorem TableReadyTaskPolicy.choose_explore {p : TableReadyTaskPolicy π γ} (hp : p.policy.Plain)
    {entries : List (Sigma fun _ : DecisionKey => ActionDistribution)}
    (he : entries.Perm p.policy.table.entries) (r : TraceRecorder) (time : SimTime)
    (tasks : List AsyncRuntime.TaskId) :
    (p.explore (TablePolicy.toDecisionScript entries)).choose r time tasks =
      ((p.choose r time tasks).1, (p.choose r time tasks).2.1.explore (TablePolicy.toDecisionScript entries),
        (p.choose r time tasks).2.2) ∧
    (p.choose r time tasks).2.1.policy = p.policy := by
  have hf := forced_toDecisionScript hp he
    (DecisionKey.normalized_new .tokioReady time.nanos p.nextOrdinal tasks) tasks p.rng
  simp only [TableReadyTaskPolicy.choose, ExplorationReadyTaskPolicy.choose, explore, hf]
  cases (p.policy.chooseFromKey (.new .tokioReady time.nanos p.nextOrdinal tasks) p.rng).1 with
  | none => exact ⟨rfl, rfl⟩
  | some chosen =>
    simp only [Option.bind_some]
    cases tasks.idxOf? chosen <;> exact ⟨rfl, rfl⟩

/-- The policies with scripts in the place of their tables. -/
def exploring (script scriptReady : DecisionScript) (p : Policies (TableFrontierPolicy φ γ) (TableReadyTaskPolicy π γ)) :
    Policies (ExplorationFrontierPolicy φ) (ExplorationReadyTaskPolicy π) :=
  ⟨p.frontier.explore script, p.ready.explore scriptReady, p.recorder⟩

theorem ask_exploring {p : Policies (TableFrontierPolicy φ γ) (TableReadyTaskPolicy π γ)}
    (hp : p.frontier.policy.Plain) (hpr : p.ready.policy.Plain)
    {entries entriesReady : List (Sigma fun _ : DecisionKey => ActionDistribution)}
    (he : entries.Perm p.frontier.policy.table.entries)
    (her : entriesReady.Perm p.ready.policy.table.entries) (q : Question) :
    let explored := exploring (TablePolicy.toDecisionScript entries)
      (TablePolicy.toDecisionScript entriesReady)
    (explored p).ask q = ((p.ask q).1, explored (p.ask q).2) ∧
      (p.ask q).2.frontier.policy = p.frontier.policy ∧ (p.ask q).2.ready.policy = p.ready.policy := by
  intro explored
  cases q with
  | frontier time events =>
    obtain ⟨h₁, h₂⟩ := TableFrontierPolicy.choose_explore hp he p.recorder time events
    refine ⟨?_, h₂, rfl⟩
    simp only [Policies.ask, TracedFrontierPolicy.choose, explored, exploring, h₁]
  | ready time tasks =>
    obtain ⟨h₁, h₂⟩ := TableReadyTaskPolicy.choose_explore hpr her p.recorder time tasks
    refine ⟨?_, rfl, h₂⟩
    simp only [Policies.ask, TracedReadyTaskPolicy.choose, explored, exploring, h₁]

theorem asks_exploring {p : Policies (TableFrontierPolicy φ γ) (TableReadyTaskPolicy π γ)}
    (hp : p.frontier.policy.Plain) (hpr : p.ready.policy.Plain)
    {entries entriesReady : List (Sigma fun _ : DecisionKey => ActionDistribution)}
    (he : entries.Perm p.frontier.policy.table.entries)
    (her : entriesReady.Perm p.ready.policy.table.entries) (questions : List Question) :
    let explored := exploring (TablePolicy.toDecisionScript entries)
      (TablePolicy.toDecisionScript entriesReady)
    (explored p).asks questions = (p.asks questions).map fun asked => (asked.1, explored asked.2) := by
  intro explored
  induction questions generalizing p with
  | nil => rfl
  | cons q questions ih =>
    obtain ⟨h₁, h₂, h₃⟩ := ask_exploring hp hpr he her q
    simp only [Policies.asks, List.map_cons]
    rw [h₁, ih (h₂ ▸ hp) (h₃ ▸ hpr) (h₂ ▸ he) (h₃ ▸ her)]

end

/-- At every sequence of choices, the policies with tables that were built by `set_deterministic`
and `remove` and the exploration policies with the scripts of these tables return the same indices,
leave the same traces, and have asked the same fallbacks as often, which are then in the same
states. -/
theorem table_exploration {φ π γ : Type} [EventFrontierPolicy φ] [ReadyTaskPolicy π] [Sampler γ] (ops opsReady : List TableOp)
    {entries entriesReady : List (Sigma fun _ : DecisionKey => ActionDistribution)}
    (he : entries.Perm (TablePolicy.build ops).table.entries) (her : entriesReady.Perm (TablePolicy.build opsReady).table.entries)
    (fallback : φ) (fallbackReady : π) (rng rngReady : γ) (recorder : TraceRecorder) (questions : List Question) :
    let tabled : Policies (TableFrontierPolicy (Counted φ) γ) (TableReadyTaskPolicy (Counted π) γ) :=
      ⟨.new (.build ops) ⟨fallback, 0⟩ rng, .new (.build opsReady) ⟨fallbackReady, 0⟩ rngReady, recorder⟩
    let explored : Policies (ExplorationFrontierPolicy (Counted φ)) (ExplorationReadyTaskPolicy (Counted π)) :=
      ⟨.new ⟨fallback, 0⟩ (some (TablePolicy.toDecisionScript entries)),
        .new ⟨fallbackReady, 0⟩ (some (TablePolicy.toDecisionScript entriesReady)), recorder⟩
    (tabled.asks questions).map (fun asked => (asked.1, asked.2.recorder, asked.2.frontier.fallback, asked.2.ready.fallback)) =
      (explored.asks questions).map fun asked => (asked.1, asked.2.recorder, asked.2.frontier.inner, asked.2.ready.inner) := by
  intro tabled explored
  have h := asks_exploring (p := tabled) (TablePolicy.plain_build ops)
    (TablePolicy.plain_build opsReady) he her questions
  have e : explored = exploring (TablePolicy.toDecisionScript entries)
    (TablePolicy.toDecisionScript entriesReady) tabled := rfl
  rw [e, h, List.map_map]
  rfl

/-- The last id, whatever the weights. -/
instance lastSampler : Sampler Unit := ⟨fun rng ids _ => (ids.getLast?, rng)⟩

/-- The first choice is forced to an id that is not there, the second one to one that is, and the
third one to none. -/
def overrides : List TableOp :=
  [.setDeterministic (.new .frontier 0 0 [1, 2]) 7, .setDeterministic ⟨.frontier, 0, 1, [2, 1, 2]⟩ 1,
    .setDeterministic (.new .frontier 0 2 [1, 2]) 1, .remove ⟨.frontier, 0, 2, [2, 1]⟩]

theorem table_exploration_overrides :
    let choice : Question := .frontier .zero [⟨1, .task, none, none⟩, ⟨2, .task, none, none⟩]
    let tabled : Policies (TableFrontierPolicy (Counted Nat) Unit) (TableReadyTaskPolicy (Counted Nat) Unit) :=
      ⟨.new (.build overrides) ⟨9, 0⟩ (), .new (.build []) ⟨9, 0⟩ (), []⟩
    let explored : Policies (ExplorationFrontierPolicy (Counted Nat)) (ExplorationReadyTaskPolicy (Counted Nat)) :=
      ⟨.new ⟨9, 0⟩ (some (TablePolicy.toDecisionScript (TablePolicy.build overrides).table.entries)),
        .new ⟨9, 0⟩ (some (TablePolicy.toDecisionScript (TablePolicy.build []).table.entries)), []⟩
    (tabled.asks [choice, choice, choice]).map (fun asked =>
      (asked.1, asked.2.frontier.fallback.asked)) = [(1, 1), (0, 1), (1, 2)] ∧
    (tabled.asks [choice, choice, choice]).map
        (fun asked => (asked.1, asked.2.recorder, asked.2.frontier.fallback, asked.2.ready.fallback)) =
      (explored.asks [choice, choice, choice]).map fun asked =>
        (asked.1, asked.2.recorder, asked.2.frontier.inner, asked.2.ready.inner) := by
  intro choice tabled explored
  exact ⟨by decide, table_exploration overrides [] (.refl _) (.refl _) 9 9 () () [] [choice, choice, choice]⟩

end DesCartes.Explore
