import DesCartes.Proof.Explore.PolicySearch
import DesCartes.Proof.Scheduler.Fifo

/-!
# What a mutation changes

`mutate_one` takes the least id of the choice set for the choice of a base policy that is FIFO. That
is the choice of `FifoFrontierPolicy`; `FifoReadyTaskPolicy` chooses the first task of its list,
which `swap_remove` has put out of order. Where the two differ, a mutation may force what is chosen
anyway.

* `At.ask`: the answers of the policies of a rollout, which know only how many choices of each kind
  there have been;
* `rollout_candidate`: the rollout of a candidate, up to the decision that has been mutated;
* `mutation_changes_iff`: the decisions that every mutation changes.
-/

namespace DesCartes

namespace Question

/-- The kind of the decision. -/
def kind : Question → Explore.DecisionKind
  | frontier .. => .frontier
  | ready .. => .tokioReady

/-- The ids to choose from. -/
def ids : Question → List Nat
  | frontier _ events => Explore.seqs events
  | ready _ tasks => tasks

/-- The index that the FIFO policies choose. -/
def fifo : Question → Nat
  | frontier _ events => FifoFrontierPolicy.index events
  | ready .. => 0

end Question

namespace Explore

/-! ## The policies of a rollout -/

/-- How many decisions of a kind there are in a log. -/
def ordinal (kind : DecisionKind) (l : List (Question × Nat)) : Nat := l.countP (·.1.kind = kind)

theorem ordinal_concat (kind : DecisionKind) (l : List (Question × Nat)) (e : Question × Nat) :
    ordinal kind (l ++ [e]) = ordinal kind l + if e.1.kind = kind then 1 else 0 := by
  rw [ordinal, List.countP_append, List.countP_singleton]
  simp only [decide_eq_true_eq]
  rfl

/-- The key of a decision after those of a log. -/
def keyAfter (l : List (Question × Nat)) (q : Question) : DecisionKey := .new q.kind q.time.nanos (ordinal q.kind l) q.ids

/-- The index that is chosen under a script, and by the FIFO policies where it forces nothing. -/
def answer (script : Option DecisionScript) (key : DecisionKey) (q : Question) : Nat :=
  min ((forced script key q.ids).getD q.fifo) (q.ids.length - 1)

/-- The policies of a rollout. -/
def rolloutPolicies (γ : Type) [SearchRng γ] (cfg : PolicySearchConfig) (entries : TableEntries)
    (frontierSeed readySeed : BitVec 64) :
    Policies (ExplorationFrontierPolicy (BaseFrontier γ)) (ExplorationReadyTaskPolicy (BaseReady γ)) :=
  ⟨rolloutFrontier cfg (TablePolicy.rolloutScript entries) frontierSeed,
    rolloutReady cfg (TablePolicy.rolloutScript entries) readySeed, []⟩

section
variable {γ : Type} [SearchRng γ] {script : Option DecisionScript} {l : List (Question × Nat)}
  {p : Policies (ExplorationFrontierPolicy (BaseFrontier γ)) (ExplorationReadyTaskPolicy (BaseReady γ))}

/-- The policies after the decisions of a log. -/
structure At (script : Option DecisionScript)
    (p : Policies (ExplorationFrontierPolicy (BaseFrontier γ)) (ExplorationReadyTaskPolicy (BaseReady γ)))
    (l : List (Question × Nat)) : Prop where
  frontier : p.frontier = ⟨.fifo ⟨⟩, script, ordinal .frontier l⟩
  ready : p.ready = ⟨.fifo ⟨⟩, script, ordinal .tokioReady l⟩

theorem at_rolloutPolicies {cfg : PolicySearchConfig} (hfrontier : cfg.baseFrontier = .fifo)
    (hready : cfg.baseTokioReady = .fifo) (entries : TableEntries)
    (frontierSeed readySeed : BitVec 64) :
    At (TablePolicy.rolloutScript entries) (rolloutPolicies γ cfg entries frontierSeed readySeed) [] := by
  refine ⟨?_, ?_⟩
  · simp only [rolloutPolicies, rolloutFrontier, hfrontier]
    rfl
  · simp only [rolloutPolicies, rolloutReady, hready]
    rfl

theorem At.ask (h : At script p l) (q : Question) :
    (p.ask q).1 = answer script (keyAfter l q) q ∧ At script (p.ask q).2 (l ++ [(q, (p.ask q).1)]) := by
  obtain ⟨frontier, ready, recorder⟩ := p
  obtain ⟨hfrontier, hready⟩ := h
  simp only at hfrontier hready
  subst hfrontier hready
  cases q with
  | frontier time events =>
    have hlength : (seqs events).length = events.length := List.length_map ..
    have hanswer : answer script (keyAfter l (.frontier time events)) (.frontier time events) =
        min ((forced script (.new .frontier time.nanos (ordinal .frontier l) (seqs events))
          (seqs events)).getD
          (FifoFrontierPolicy.index events)) (events.length - 1) := congrArg _ (congrArg (· - 1) hlength)
    rw [hanswer]
    simp only [Policies.ask, TracedFrontierPolicy.choose, ExplorationFrontierPolicy.choose, recordFrontier]
    cases forced script (.new .frontier time.nanos (ordinal .frontier l) (seqs events)) (seqs events) <;>
      exact ⟨rfl, by simp [EventFrontierPolicy.choose, ordinal_concat, Question.kind],
        by simp [ordinal_concat, Question.kind]⟩
  | ready time tasks =>
    have hanswer : answer script (keyAfter l (.ready time tasks)) (.ready time tasks) =
        min ((forced script (.new .tokioReady time.nanos (ordinal .tokioReady l) tasks) tasks).getD 0)
          (tasks.length - 1) := rfl
    rw [hanswer]
    simp only [Policies.ask, TracedReadyTaskPolicy.choose, ExplorationReadyTaskPolicy.choose, recordReady]
    cases forced script (.new .tokioReady time.nanos (ordinal .tokioReady l) tasks) tasks <;>
      exact ⟨rfl, by simp [ordinal_concat, Question.kind],
        by simp [AsyncRuntime.ReadyTaskPolicy.choose, ordinal_concat, Question.kind]⟩

end

/-! ## The decisions of a log -/

/-- What is observed of an entry of a log, after the entries of `l`. -/
def decisionAfter (l : List (Question × Nat)) (e : Question × Nat) : ObservedDecision := ⟨keyAfter l e.1, (e.1.ids[e.2]?).getD 0⟩

/-- What is observed of a log, after the entries of `pre`. -/
def decisions : List (Question × Nat) → List (Question × Nat) → List ObservedDecision
  | _, [] => []
  | pre, e :: l => decisionAfter pre e :: decisions (pre ++ [e]) l

theorem decisions_append (pre l l' : List (Question × Nat)) :
    decisions pre (l ++ l') = decisions pre l ++ decisions (pre ++ l) l' := by
  induction l generalizing pre with
  | nil => rw [List.append_nil]; rfl
  | cons e l ih => rw [List.cons_append, decisions, decisions, ih, List.append_assoc]; rfl

@[simp] theorem length_decisions (pre l : List (Question × Nat)) : (decisions pre l).length = l.length := by
  induction l generalizing pre with
  | nil => rfl
  | cons e l ih => rw [decisions, List.length_cons, ih, List.length_cons]

theorem extractDecisions_log {log : List (Question × Nat)} (hlog : ∀ e ∈ log, Sane e) :
    extractDecisions (log.map realized) = some (decisions [] log) := by
  suffices h : ∀ pre : List (Question × Nat), extractDecisionsFrom (ordinal .frontier pre)
    (ordinal .tokioReady pre)
      (log.map realized) = some (decisions pre log) from h []
  induction log with
  | nil => exact fun _ => rfl
  | cons e log ih =>
    intro pre
    obtain ⟨he, hlog⟩ := List.forall_mem_cons.mp hlog
    have ih := ih hlog (pre ++ [e])
    obtain ⟨⟨time, events⟩ | ⟨time, tasks⟩, a⟩ := e
    · simp only [ordinal_concat, Question.kind, reduceCtorEq, if_true, if_false, Nat.add_zero] at ih
      have hlt : a < events.length := he.2
      have hchosen : (seqs events)[a]? = some events[a].seq := by
        rw [seqs, List.getElem?_map, List.getElem?_eq_getElem hlt]
        rfl
      simp only [List.map_cons, realized, observe_frontier hlt]
      rw [ih, decisions, decisionAfter, show (Question.frontier time events).ids =
        seqs events from rfl, hchosen]
      rfl
    · simp only [ordinal_concat, Question.kind, reduceCtorEq, if_true, if_false, Nat.add_zero] at ih
      have hlt : a < tasks.length := he.2
      have hchosen : tasks[a]? = some tasks[a] := List.getElem?_eq_getElem hlt
      simp only [List.map_cons, realized, observe_ready hlt]
      rw [ih, decisions, decisionAfter, show (Question.ready time tasks).ids = tasks from rfl, hchosen]
      rfl

/-- Another decision of the log has another key. -/
theorem keyAfter_ne (l₁ l₂ : List (Question × Nat)) (e : Question × Nat) (q : Question) :
    keyAfter l₁ e.1 ≠ keyAfter (l₁ ++ e :: l₂) q := by
  intro h
  have hkind : e.1.kind = q.kind := congrArg DecisionKey.kind h
  have hordinal : ordinal e.1.kind l₁ = ordinal q.kind (l₁ ++ e :: l₂) := congrArg DecisionKey.ordinal h
  rw [ordinal, ordinal, List.countP_append, List.countP_cons_of_pos (by simpa using hkind), hkind] at hordinal
  omega

@[simp] theorem normalized_keyAfter (l : List (Question × Nat)) (q : Question) :
    (keyAfter l q).normalized = keyAfter l q :=
  DecisionKey.normalized_new ..

/-! ## What is chosen -/

/-- The id that a script has for a key. -/
def forcedId (script : Option DecisionScript) (key : DecisionKey) : Option Nat := script.bind (·.get key)

theorem forced_eq (script : Option DecisionScript) (key : DecisionKey) (ids : List Nat) :
    forced script key ids = (forcedId script key).bind ids.idxOf? := by
  cases script with
  | none => rfl
  | some script =>
    simp only [forced, forcedId, Option.bind_some]
    cases script.get key <;> rfl

theorem length_ids (q : Question) : q.ids.length = size q := by
  cases q with
  | frontier => exact List.length_map ..
  | ready => rfl

theorem Question.Distinct.nodup {q : Question} (hq : q.Distinct) : q.ids.Nodup ∧ q.ids ≠ [] := by
  cases q with
  | frontier time events => exact ⟨hq.1, fun h => hq.2 (List.map_eq_nil_iff.mp h)⟩
  | ready => exact hq

section
variable {script : Option DecisionScript} {key : DecisionKey} {q : Question} {id : Nat}

/-- The id that is forced. -/
theorem ids_answer_forced (hq : q.Distinct) (hforced : forcedId script key = some id) (hid : id ∈ q.ids) :
    q.ids[answer script key q]? = some id := by
  obtain ⟨i, hi, rfl⟩ := List.mem_iff_getElem.mp hid
  have hanswer : answer script key q = i := by
    rw [answer, forced_eq, hforced, Option.bind_some,
      Vec.idxOf?_getElem (Question.Distinct.nodup hq).1 hi, Option.getD_some]
    omega
  rw [hanswer, List.getElem?_eq_getElem hi]

/-- The id of the index that the FIFO policies choose, where none is forced. -/
theorem ids_answer_free (hq : q.Distinct) (hfree : ∀ id ∈ forcedId script key, id ∉ q.ids) :
    q.ids[answer script key q]? = q.ids[q.fifo]? := by
  have hnone : forced script key q.ids = none := by
    rw [forced_eq]
    cases hid : forcedId script key with
    | none => rfl
    | some id => exact List.idxOf?_eq_none_iff.mpr (hfree id hid)
  have hlt : q.fifo < q.ids.length := by
    cases q with
    | frontier time events =>
      obtain ⟨x, hx, -⟩ := Scheduler.fifo_index_spec hq.2
      rw [length_ids]
      exact (List.getElem?_eq_some_iff.mp hx).1
    | ready time tasks => exact List.length_pos_iff.mpr hq.2
  have hanswer : answer script key q = q.fifo := by
    rw [answer, hnone, Option.getD_none]
    omega
  rw [hanswer]

end

/-! ## What `mutate_one` takes for the choice -/

/-- The first of the ready tasks has the least id, if it is a decision among tasks. -/
def LeastFirst : TraceEvent → Prop
  | .asyncRuntimeDecision d => ∀ first ∈ d.readyTaskIds.head?, ∀ id ∈ d.readyTaskIds, first ≤ id
  | _ => True

/-- The table has one of the ids for the decision, or else none at all and the least id is the first. -/
def Foreseen (base : TablePolicy) (key : DecisionKey) (e : TraceEvent) : Prop :=
  match base.get key with
  | some (.deterministic id) => id ∈ key.choiceSet
  | _ => LeastFirst e

instance (e : TraceEvent) : Decidable (LeastFirst e) :=
  match e with
  | .asyncRuntimeDecision d => inferInstanceAs (Decidable (∀ first ∈ d.readyTaskIds.head?, ∀ id ∈ d.readyTaskIds, first ≤ id))
  | .randomDraw _ | .schedulerDecision _ | .concurrency _ => .isTrue trivial

instance (base : TablePolicy) (key : DecisionKey) (e : TraceEvent) : Decidable (Foreseen base key e) :=
  match h : base.get key with
  | some (.deterministic id) => decidable_of_iff (id ∈ key.choiceSet) (by rw [Foreseen, h])
  | some (.categorical ..) | none => decidable_of_iff (LeastFirst e) (by rw [Foreseen, h])

section
variable {base : TablePolicy} {entries : TableEntries} {l : List (Question × Nat)} {q : Question}

theorem forcedId_rolloutScript (hbase : base.Normalized) (he : entries.Perm base.table.entries)
    {key : DecisionKey} (hk : key.normalized = key) :
    forcedId (TablePolicy.rolloutScript entries) key = (base.get key).bind ActionDistribution.chosenId? := by
  have hget := get_toDecisionScript hbase he hk
  rw [TablePolicy.get, hk, ← hget, TablePolicy.rolloutScript]
  split
  · rfl
  · rename_i hnone
    rw [hget]
    cases hlookup : base.table.lookup key with
    | none => rfl
    | some a =>
      cases a with
      | deterministic id =>
        refine absurd (List.any_eq_true.mpr ⟨⟨key, .deterministic id⟩, he.mem_iff.mpr ?_, rfl⟩) hnone
        exact AList.mem_lookup_iff.mp hlookup
      | categorical ids weights => rfl

theorem mem_choiceSet (hq : q.Distinct) {id : Nat} : id ∈ (keyAfter l q).choiceSet ↔ id ∈ q.ids :=
  Vec.mem_sortDedup (Question.Distinct.nodup hq).1

/-- The FIFO choice is the least id of the choice set exactly where the first one is the least. -/
theorem fifo_eq_iff (hq : q.Distinct) (a : Nat) :
    q.ids[q.fifo]? = (keyAfter l q).choiceSet.head? ↔ LeastFirst (realized (q, a)) := by
  cases q with
  | frontier time events =>
    obtain ⟨x, hx, hle⟩ := Scheduler.fifo_index_spec hq.2
    have hfirst : (seqs events)[FifoFrontierPolicy.index events]? = some x.seq := by
      rw [seqs, List.getElem?_map, hx]
      rfl
    refine iff_of_true (hfirst.trans (Vec.head?_sortDedup hq.1 (List.mem_of_getElem? hfirst) ?_).symm) trivial
    intro b hb
    obtain ⟨y, hy, rfl⟩ := List.mem_map.mp hb
    exact hle y hy
  | ready time tasks =>
    obtain ⟨first, rest, rfl⟩ := List.exists_cons_of_ne_nil hq.2
    obtain ⟨least, hleast, hmin, hhead⟩ := Vec.exists_head?_sortDedup hq.1 hq.2
    have hhead : (keyAfter l (.ready time (first :: rest))).choiceSet.head? = some least := hhead
    rw [hhead]
    show some first = some least ↔ ∀ f ∈ (first :: rest).head?, ∀ id ∈ first :: rest, f ≤ id
    constructor
    · rintro ⟨⟩ f ⟨⟩ id hid
      exact hmin id hid
    · intro h
      exact congrArg some (le_antisymm (h first rfl least hleast) (hmin first List.mem_cons_self))

/-- What `mutate_one` takes for the choice is the choice exactly where it is foreseen. -/
theorem currentChoice_eq_iff (hbase : base.Normalized) (he : entries.Perm base.table.entries)
    (hq : q.Distinct) (a : Nat) :
    currentChoice base (keyAfter l q) = q.ids[answer (TablePolicy.rolloutScript entries) (keyAfter l q) q]? ↔
      Foreseen base (keyAfter l q) (realized (q, a)) := by
  have hforced := forcedId_rolloutScript hbase he (normalized_keyAfter l q)
  -- without an id in the table, the FIFO choice and the least id are compared
  have hfree : forcedId (TablePolicy.rolloutScript entries) (keyAfter l q) = none →
      ((keyAfter l q).choiceSet.head? = q.ids[answer (TablePolicy.rolloutScript entries) (keyAfter l q) q]? ↔
        LeastFirst (realized (q, a))) := by
    intro hnone
    rw [ids_answer_free hq (by rw [hnone]; exact nofun), ← fifo_eq_iff hq a, eq_comm]
  cases hget : base.get (keyAfter l q) with
  | none =>
    rw [hget] at hforced
    simp only [currentChoice, Foreseen, hget]
    exact hfree hforced
  | some d =>
    rw [hget] at hforced
    cases d with
    | categorical ids weights =>
      simp only [currentChoice, Foreseen, hget]
      exact hfree hforced
    | deterministic id =>
      simp only [currentChoice, Foreseen, hget]
      rw [mem_choiceSet hq]
      exact ⟨fun h => List.mem_of_getElem? h.symm, fun hid => (ids_answer_forced hq hforced hid).symm⟩

end

/-! ## Candidates -/

section
variable {γ : Type} [SearchRng γ] {α : Type}

theorem SearchRng.mem_of_choose {l : List α} {rng rng' : γ} {a : α}
    (h : SearchRng.choose l rng = (some a, rng')) : a ∈ l := by
  unfold SearchRng.choose at h
  split at h
  · cases h
  · exact List.mem_of_getElem? (congrArg Prod.fst h)

variable {base candidate : TablePolicy} {knownKeys : List DecisionKey} {rng rng' : γ} {key : DecisionKey}

/-- A candidate forces another id than the one that `mutate_one` takes for the choice. -/
theorem mutateOne_eq (hkey : (SearchRng.choose (mutationPool knownKeys) rng).1 = some key)
    (h : mutateOne base knownKeys rng = (some candidate, rng')) :
    ∃ id ∈ key.choiceSet, some id ≠ currentChoice base key ∧ candidate = base.setDeterministic key id := by
  unfold mutateOne at h
  split at h
  · cases h
  · rename_i key' rng₁ hchoose
    rw [hchoose] at hkey
    obtain rfl := Option.some.inj hkey
    obtain ⟨id, hid, rfl⟩ := Option.map_eq_some_iff.mp (congrArg Prod.fst h)
    obtain ⟨hmem, hne⟩ := List.mem_filter.mp (SearchRng.mem_of_choose (Prod.ext hid rfl))
    exact ⟨id, hmem, by simpa using hne, rfl⟩

end

/-- A generator that always draws the same index, if there are as many entries. -/
structure FixedRng where
  index : Nat

instance : SearchRng FixedRng where
  seedFromU64 seed := ⟨seed.toNat⟩
  genRange rng n := (min rng.index (n - 1), rng)
  genIndex rng n := (min rng.index (n - 1), rng)
  genIndex_lt rng h := by simp only; omega

theorem mutationPool_singleton {key : DecisionKey} (hkey : 1 < key.choiceSet.length) :
    mutationPool [key] = [key] := by
  have hfilter : [key].filter (fun k => 1 < k.choiceSet.length) = [key] :=
    List.filter_cons_of_pos (by simpa using hkey)
  rw [mutationPool, hfilter, show Vec.sortBy DecisionKey.sortCmp [key] = [key] from rfl]
  cases hk : decide (key.kind = .tokioReady) <;> simp [List.partition_eq_filter_filter, hk]

/-- Every id that is not taken for the choice is forced by some candidate. -/
theorem exists_mutateOne {base : TablePolicy} {key : DecisionKey} (hkey : 1 < key.choiceSet.length) {id : Nat}
    (hid : id ∈ key.choiceSet) (hne : some id ≠ currentChoice base key) : ∃ rng : FixedRng,
      (SearchRng.choose (mutationPool [key]) rng).1 = some key ∧
        mutateOne base [key] rng = (some (base.setDeterministic key id), rng) := by
  obtain ⟨i, hi, hget⟩ := List.mem_iff_getElem.mp
    (List.mem_filter.mpr ⟨hid, by simpa using hne⟩ : id ∈ key.choiceSet.filter fun id =>
      some id ≠ currentChoice base key)
  have hkeys : SearchRng.choose [key] (⟨i⟩ : FixedRng) = (some key, ⟨i⟩) := by
    rw [SearchRng.choose, if_neg (List.cons_ne_nil _ _)]
    show ([key][min i 0]?, _) = _
    rw [Nat.min_zero]
    rfl
  have hids : SearchRng.choose (key.choiceSet.filter fun id => some id ≠ currentChoice base key)
      (⟨i⟩ : FixedRng) = (some id, ⟨i⟩) := by
    have hmin : min i ((key.choiceSet.filter fun id => some id ≠ currentChoice base key).length - 1) =
      i := by omega
    rw [SearchRng.choose, if_neg (List.ne_nil_of_length_pos (Nat.zero_lt_of_lt hi))]
    show (_[min i _]?, _) = _
    rw [hmin, List.getElem?_eq_getElem hi, hget]
  refine ⟨⟨i⟩, ?_, ?_⟩
  · rw [mutationPool_singleton hkey, hkeys]
  · rw [mutateOne, mutationPool_singleton hkey, hkeys]
    show mutateKey base key (⟨i⟩ : FixedRng) = _
    rw [mutateKey, hids]
    rfl

/-! ## The rollout of a candidate -/

/-- The entry of the key that is set, and those of the others. -/
theorem TablePolicy.get_setDeterministic (t : TablePolicy) {key key' : DecisionKey}
    (hk : key.normalized = key) (hk' : key'.normalized = key') (id : Nat) :
    (t.setDeterministic key id).get key' = if key' = key then some (.deterministic id) else t.get key' := by
  rw [get, get, setDeterministic, hk, hk']
  split
  · rename_i h
    rw [h]
    exact AList.lookup_insert _
  · rename_i h
    exact AList.lookup_insert_ne h

theorem TablePolicy.Normalized.setDeterministic {t : TablePolicy} (ht : t.Normalized)
    (key : DecisionKey) (id : Nat) :
    (t.setDeterministic key id).Normalized := by
  intro entry he
  have hlookup := AList.mem_lookup_iff.mpr he
  by_cases h : entry.1 = key.normalized
  · rw [h, DecisionKey.normalized_normalized]
  · rw [Option.mem_def, TablePolicy.setDeterministic, AList.lookup_insert_ne h] at hlookup
    exact ht _ (AList.mem_lookup_iff.mp hlookup)

section
variable {R γ : Type} [SearchRng γ] {base : TablePolicy} {entries entries' : TableEntries} {l rest : List (Question × Nat)}
  {q : Question} {a id : Nat} {p p' : Policies (ExplorationFrontierPolicy (BaseFrontier γ)) (ExplorationReadyTaskPolicy (BaseReady γ))}
  {c : Client Question Nat R}

/-- The choices of a rollout are those of its script. -/
theorem answer_of_log {script : Option DecisionScript} (hp : At script p [])
    (hlog : c.log Policies.ask p = l ++ (q, a) :: rest) :
    a = answer script (keyAfter l q) q := by
  obtain ⟨t, ht, ha⟩ := Client.exists_of_log (I := At script) (fun _ q _ h => (h.ask q).2) hp hlog
  exact ha.symm.trans (At.ask ht q).1

/-- A candidate is asked the same up to the decision that has been mutated, and gives the same
answers before it. -/
theorem rollout_candidate (hbase : base.Normalized) (he : entries.Perm base.table.entries)
    (hp : At (TablePolicy.rolloutScript entries) p []) (hp' : At (TablePolicy.rolloutScript entries') p' [])
    (he' : entries'.Perm (base.setDeterministic (keyAfter l q) id).table.entries) (hq : q.Distinct)
    (hid : id ∈ (keyAfter l q).choiceSet) (hlog : c.log Policies.ask p = l ++ (q, a) :: rest) :
    ∃ a' rest', c.log Policies.ask p' = l ++ (q, a') :: rest' ∧ q.ids[a']? = some id := by
  have hforced : ∀ {key : DecisionKey}, key.normalized = key →
      forcedId (TablePolicy.rolloutScript entries') key =
        if key = keyAfter l q then some id else forcedId (TablePolicy.rolloutScript entries) key := by
    intro key hk
    rw [forcedId_rolloutScript (hbase.setDeterministic _ _) he' hk, forcedId_rolloutScript hbase he hk,
      TablePolicy.get_setDeterministic base (normalized_keyAfter l q) hk]
    split <;> rfl
  have hbefore : ∀ l₁ e l₂, l = l₁ ++ e :: l₂ → ∀ t : Policies (ExplorationFrontierPolicy (BaseFrontier γ))
      (ExplorationReadyTaskPolicy (BaseReady γ)), At (TablePolicy.rolloutScript entries') t ([] ++ l₁) →
      (t.ask e.1).1 = e.2 := by
    intro l₁ e l₂ hl t ht
    -- the keys before this one have other ordinals
    have hne : keyAfter l₁ e.1 ≠ keyAfter l q := hl ▸ keyAfter_ne l₁ l₂ e q
    have hsame := (hforced (normalized_keyAfter l₁ e.1)).trans (if_neg hne)
    have hanswer : e.2 = answer (TablePolicy.rolloutScript entries) (keyAfter l₁ e.1) e.1 :=
      answer_of_log hp (hlog.trans (by rw [hl, List.append_assoc]; rfl) : _ =
        l₁ ++ (e.1, e.2) :: (l₂ ++ (q, a) :: rest))
    rw [hanswer, (ht.ask e.1).1, answer, answer, forced_eq, forced_eq, List.nil_append, hsame]
  obtain ⟨t, rest', ht, hlog'⟩ := Client.log_branch (I := At (TablePolicy.rolloutScript entries'))
    (fun _ q _ h => (h.ask q).2) hp'
    hlog hbefore
  refine ⟨_, rest', hlog', ?_⟩
  rw [(ht.ask q).1]
  exact ids_answer_forced hq ((hforced (normalized_keyAfter l q)).trans (if_pos rfl))
    ((mem_choiceSet hq).mp hid)

end

/-! ## Runs -/

/-- The candidate's rollout makes the same decisions as the base's up to the index `i`; it has the
decision `d` there too, and makes it otherwise, as the candidate forces it. -/
def ChangesAt (observed : List ObservedDecision) (i : Nat) (d : ObservedDecision) (candidate : TablePolicy) (tr : List TraceEvent) :
    Prop :=
  ∃ observed' d', extractDecisions tr = some observed' ∧ observed'.take i = observed.take i ∧ observed'[i]? = some d' ∧
    d'.key = d.key ∧ candidate.get d.key = some (.deterministic d'.chosen) ∧ d'.chosen ≠ d.chosen

/-- All candidates that `mutate_one` makes by changing the decision `d` of a rollout change the
schedule there. -/
def MutationsChange (base : TablePolicy) (rollout : TableEntries → List TraceEvent) (observed : List ObservedDecision) (i : Nat)
    (d : ObservedDecision) : Prop :=
  ∀ (γ : Type) [SearchRng γ] (knownKeys : List DecisionKey) (rng rng' : γ) (candidate : TablePolicy) (entries : TableEntries),
    (SearchRng.choose (mutationPool knownKeys) rng).1 = some d.key → mutateOne base knownKeys rng = (some candidate, rng') →
      entries.Perm candidate.table.entries → ChangesAt observed i d candidate (rollout entries)

theorem decisions_split {log l rest : List (Question × Nat)} {e : Question × Nat} (h : log = l ++ e :: rest) :
    (decisions [] log).take l.length = decisions [] l ∧ (decisions [] log)[l.length]? =
      some (decisionAfter l e) := by
  subst h
  have hlength := length_decisions [] l
  rw [decisions_append, List.nil_append, decisions]
  refine ⟨List.take_left' hlength, ?_⟩
  rw [← hlength, List.getElem?_append_right le_rfl, Nat.sub_self]
  rfl

theorem exists_split {log : List (Question × Nat)} {i : Nat} (h : i < log.length) :
    ∃ l q a rest, log = l ++ (q, a) :: rest ∧ l.length = i :=
  ⟨log.take i, log[i].1, log[i].2, log.drop (i + 1), by simp, List.length_take_of_le h.le⟩

/-- The candidates for one decision of a log. -/
theorem changes_iff {R γ : Type} [SearchRng γ] {base : TablePolicy} (hbase : base.Normalized)
    {entries : TableEntries} (he : entries.Perm base.table.entries) {c : Client Question Nat R}
    {policies : TableEntries → Policies (ExplorationFrontierPolicy (BaseFrontier γ)) (ExplorationReadyTaskPolicy (BaseReady γ))}
    (hat : ∀ entries, At (TablePolicy.rolloutScript entries) (policies entries) [])
    (hsane : ∀ entries, ∀ e ∈ c.log Policies.ask (policies entries), Sane e)
    {l rest : List (Question × Nat)} {q : Question} {a : Nat}
    (hlog : c.log Policies.ask (policies entries) = l ++ (q, a) :: rest)
    (hchoices : 1 < (keyAfter l q).choiceSet.length) :
    MutationsChange base (fun entries => (c.log Policies.ask (policies entries)).map realized)
      (decisions [] (c.log Policies.ask (policies entries))) l.length (decisionAfter l (q, a)) ↔
        Foreseen base (keyAfter l q) (realized (q, a)) := by
  obtain ⟨hq, ha⟩ : Sane (q, a) := hsane entries _
    (by rw [hlog]; exact List.mem_append_right _ List.mem_cons_self)
  obtain ⟨chosen, hchosen⟩ : ∃ chosen, q.ids[a]? = some chosen :=
    ⟨_, List.getElem?_eq_getElem ((length_ids q).symm ▸ ha)⟩
  have hd : (decisionAfter l (q, a)).chosen = chosen := by rw [decisionAfter, hchosen]; rfl
  have hcurrent : currentChoice base (keyAfter l q) = some chosen ↔
      Foreseen base (keyAfter l q) (realized (q, a)) := by
    rw [← currentChoice_eq_iff hbase he hq a, ← answer_of_log (hat entries) hlog, hchosen]
  rw [← hcurrent]
  constructor
  · intro h
    by_contra hnot
    obtain ⟨rng, hpool, hmutate⟩ :=
      exists_mutateOne hchoices ((mem_choiceSet hq).mpr (List.mem_of_getElem? hchosen)) (Ne.symm hnot)
    obtain ⟨-, d', -, -, -, -, hget, hne⟩ := h FixedRng _ rng rng _ _ hpool hmutate (List.Perm.refl _)
    have hsame := TablePolicy.get_setDeterministic base (normalized_keyAfter l q)
      (normalized_keyAfter l q) chosen
    rw [if_pos rfl] at hsame
    cases hsame.symm.trans hget
    exact hne hd.symm
  · intro hcurrent γ' _ knownKeys rng rng' candidate entries' hpool hmutate he'
    obtain ⟨id, hid, hne, rfl⟩ := mutateOne_eq hpool hmutate
    obtain ⟨a', rest', hlog', hid'⟩ := rollout_candidate hbase he (hat entries) (hat entries') he' hq hid hlog
    have hd' : (decisionAfter l (q, a')).chosen = id := by rw [decisionAfter, hid']; rfl
    refine ⟨_, decisionAfter l (q, a'), extractDecisions_log (hsane entries'), ?_,
      (decisions_split hlog').2, rfl, ?_, ?_⟩
    · rw [(decisions_split hlog').1, (decisions_split hlog).1]
    · rw [hd']
      exact (TablePolicy.get_setDeterministic base (normalized_keyAfter l q)
        (normalized_keyAfter l q) id).trans (if_pos rfl)
    · rw [hd, hd']
      rintro rfl
      exact hne hcurrent.symm

/-- In a rollout of any table under FIFO policies, of any simulation: the candidates that
`mutate_one` makes by changing a decision of the rollout with two choices or more all change the
schedule there, exactly when the table has one of the ids for the decision, or else none, and the
first of the tasks is the least one if it is a decision among tasks. -/
theorem mutation_changes_iff {κ ν γ φ₀ : Type} [SearchRng γ] [EventFrontierPolicy φ₀] (program : Program κ ν) {idSeed : BitVec 64}
    {ops : List (Op (Payload ν) Unit Unit φ₀)} {session : Session (Payload ν) Unit Unit} {answers : List (Answer (Payload ν))}
    (hr : Machine.run Session.step (.fresh idSeed) ops = some (session, answers))
    (deferred : List (SimTime × Message ν)) (key : Uuid)
    (spawned : Nat) (k : κ) (n : Nat) {cfg : PolicySearchConfig} (hfrontier : cfg.baseFrontier = .fifo)
    (hready : cfg.baseTokioReady = .fifo) (frontierSeed readySeed : BitVec 64) {base : TablePolicy} (hbase : base.Normalized)
    {entries : TableEntries} (he : entries.Perm base.table.entries) :
    let w := World.install session.scheduler () deferred key () spawned
    let rollout (entries : TableEntries) : List TraceEvent :=
      (program.play n k w (rolloutPolicies γ cfg entries frontierSeed readySeed)).2.recorder
    ∃ observed, extractDecisions (rollout entries) = some observed ∧
      ∀ (i : Nat) (d : ObservedDecision) (e : TraceEvent), observed[i]? = some d → (rollout entries)[i]? = some e →
        1 < d.key.choiceSet.length → (MutationsChange base rollout observed i d ↔ Foreseen base d.key e) := by
  intro w rollout
  have hkept := Session.Kept.run (Session.wf_fresh idSeed) (Session.kept_fresh idSeed) hr
  have hw : w.Sound := World.sound_install hkept.numbered ..
  have hlogged := fun entries => play_recorder program n k hw
    (rolloutPolicies γ cfg entries frontierSeed readySeed)
  have hrollout : ∀ entries, rollout entries = ((program.run n k w).log Policies.ask
      (rolloutPolicies γ cfg entries frontierSeed readySeed)).map realized := fun entries =>
        (hlogged entries).1
  refine ⟨decisions [] ((program.run n k w).log Policies.ask
    (rolloutPolicies γ cfg entries frontierSeed readySeed)), ?_, ?_⟩
  · rw [hrollout]
    exact extractDecisions_log (hlogged entries).2
  intro i d e hd hevent hchoices
  obtain ⟨hlt, -⟩ := List.getElem?_eq_some_iff.mp hd
  rw [length_decisions] at hlt
  obtain ⟨l, q, a, rest, hlog, rfl⟩ := exists_split hlt
  obtain rfl : decisionAfter l (q, a) = d := Option.some.inj ((decisions_split hlog).2.symm.trans hd)
  obtain rfl : realized (q, a) = e := by
    rw [hrollout, hlog] at hevent
    simpa using hevent
  rw [funext hrollout]
  exact changes_iff hbase he (fun entries =>
    at_rolloutPolicies hfrontier hready entries frontierSeed readySeed)
    (fun entries => (hlogged entries).2) hlog hchoices

/-- A search with FIFO policies. -/
def fifoSearch : PolicySearchConfig := ⟨1, true, .fifo, .fifo, 3, 2, 2, 0, .pHat, 4, 7⟩

/-- What a rollout leaves that starts with three tasks, in a new simulation. -/
def threeTasks (entries : TableEntries) : List TraceEvent :=
  (idle.play 1 () (World.install (Session.fresh 7).scheduler () [] 0 () 3) (rolloutPolicies Nat fifoSearch entries 0 0)).2.recorder

/-- Its decisions without a script. After the first one, `swap_remove` has put the last task in front. -/
def threeDecisions : List ObservedDecision :=
  [⟨.new .tokioReady 0 0 [0, 1, 2], 0⟩, ⟨.new .tokioReady 0 1 [1, 2], 2⟩, ⟨.new .tokioReady 0 2 [1], 1⟩]

theorem threeTasks_nil : threeTasks [] = [.asyncRuntimeDecision ⟨0, 0, some 0, [0, 1, 2]⟩,
    .asyncRuntimeDecision ⟨0, 0, some 2, [2, 1]⟩, .asyncRuntimeDecision ⟨0, 0, some 1, [1]⟩] := by
  decide +kernel

theorem extractDecisions_threeTasks : extractDecisions (threeTasks []) = some threeDecisions := by
  rw [threeTasks_nil]
  decide

/-- The mutations of the first choice among the tasks change it, those of the second one do not all. -/
theorem mutation_changes_iff_threeTasks : (∀ d ∈ threeDecisions[0]?, MutationsChange .new threeTasks threeDecisions 0 d) ∧
    ∀ d ∈ threeDecisions[1]?, ¬MutationsChange .new threeTasks threeDecisions 1 d := by
  have hrun : Machine.run Session.step (.fresh 7)
    ([] : List (Op (Payload Unit) Unit Unit FifoFrontierPolicy)) =
      some (.fresh 7, []) := rfl
  have hfrontier : fifoSearch.baseFrontier = .fifo := rfl
  have hempty : List.Perm ([] : TableEntries) TablePolicy.new.table.entries := .nil
  obtain ⟨observed, hobserved, hiff⟩ :=
    mutation_changes_iff (γ := Nat) idle hrun [] 0 3
      () 1 hfrontier rfl 0 0 TablePolicy.plain_new.normalized hempty
  change extractDecisions (threeTasks []) = some observed at hobserved
  change ∀ i d e, observed[i]? = some d → (threeTasks [])[i]? = some e → _ →
    (MutationsChange .new threeTasks observed i d ↔ _) at hiff
  obtain rfl : threeDecisions = observed := Option.some.inj (extractDecisions_threeTasks.symm.trans hobserved)
  rw [threeTasks_nil] at hiff
  refine ⟨?_, ?_⟩
  · rintro _ ⟨⟩
    exact (hiff 0 _ _ rfl rfl (by decide)).mpr (by decide)
  · rintro _ ⟨⟩
    exact mt (hiff 1 _ _ rfl rfl (by decide)).mp (by decide)

/-- The candidate that forces the last task for the second choice changes nothing. -/
theorem not_changesAt_threeTasks :
    let key := DecisionKey.new .tokioReady 0 1 [1, 2]
    let candidate := TablePolicy.new.setDeterministic key 2
    extractDecisions (threeTasks []) = some threeDecisions ∧ threeDecisions[1]? = some ⟨key, 2⟩ ∧
      mutateOne .new (threeDecisions.map (·.key)) 1 = (some candidate, 3) ∧ threeTasks candidate.table.entries = threeTasks [] ∧
      ∀ entries, entries.Perm candidate.table.entries → ¬ChangesAt threeDecisions 1 ⟨key, 2⟩ candidate (threeTasks entries) := by
  refine ⟨extractDecisions_threeTasks, rfl, rfl, by decide +kernel, ?_⟩
  rintro entries - ⟨-, d', -, -, -, -, hget, hne⟩
  have hforced : some (ActionDistribution.deterministic 2) = some (.deterministic d'.chosen) := hget
  injection hforced with hforced
  injection hforced with hchosen
  exact hne hchosen.symm

end Explore

end DesCartes
