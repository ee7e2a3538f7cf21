import DesCartes.Impl.Explore.PolicySearch
import DesCartes.Proof.Explore.Table

/-!
# Policy search does not depend on the order of hash maps

The comparison that `mutate_one` sorts by tells any two keys apart, so the keys are sorted into one
order whatever order the hash set has them in. The tables of a search are all `Plain`, so their
scripts do not depend on the order of their entries either.

* `mutateOne_perm`: one mutation;
* `search_orders`: the whole search.
-/

namespace DesCartes.Explore

/-! ## One mutation -/

instance : Std.TransCmp DecisionKey.sortCmp := by
  unfold DecisionKey.sortCmp
  infer_instance

theorem DecisionKind.toU8_inj {a b : DecisionKind} (h : a.toU8 = b.toU8) : a = b := by
  cases a <;> cases b <;> first | rfl | cases h

instance : Std.LawfulEqCmp DecisionKey.sortCmp where
  eq_of_compare {a b} h := by
    simp only [DecisionKey.sortCmp, compareLex_eq_eq, compareOn, Std.LawfulEqOrd.compare_eq_iff_eq] at h
    obtain ⟨htime, hkind, hordinal, -, hset⟩ := h
    obtain ⟨⟩ := a
    obtain ⟨⟩ := b
    simp only at htime hkind hordinal hset
    rw [htime, DecisionKind.toU8_inj hkind, hordinal, hset]

theorem mutationPool_perm {keys keys' : List DecisionKey} (h : keys.Perm keys') :
    mutationPool keys = mutationPool keys' := by
  rw [mutationPool, mutationPool, Vec.sortBy_eq_of_perm (h.filter _)]

theorem mutateOne_perm {γ : Type} [SearchRng γ] (base : TablePolicy) {keys keys' : List DecisionKey}
    (h : keys.Perm keys') (rng : γ) :
    mutateOne base keys rng = mutateOne base keys' rng := by
  rw [mutateOne, mutateOne, mutationPool_perm h]

/-! ## The scripts of a search -/

/-- A script has nothing for keys that are not normalized. -/
theorem decisions_toDecisionScript {key : DecisionKey} (hk : key.normalized ≠ key) (entries : TableEntries) :
    (TablePolicy.toDecisionScript entries).decisions key = none := by
  refine List.foldlRecOn (motive := fun script : DecisionScript => script.decisions key =
    none) entries _ rfl fun script hs entry _ => ?_
  unfold TablePolicy.insertEntry
  split
  · refine (Function.update_of_ne (fun e => hk ?_) ..).trans hs
    rw [e, DecisionKey.normalized_normalized]
  · exact hs

theorem toDecisionScript_perm {t : TablePolicy} (ht : t.Normalized)
    {entries entries' : TableEntries} (he : entries.Perm t.table.entries)
    (he' : entries'.Perm t.table.entries) :
    TablePolicy.toDecisionScript entries = TablePolicy.toDecisionScript entries' := by
  refine congrArg DecisionScript.mk (funext fun key => ?_)
  by_cases hk : key.normalized = key
  · have hget := (get_toDecisionScript ht he hk).trans (get_toDecisionScript ht he' hk).symm
    rwa [DecisionScript.get, DecisionScript.get, hk] at hget
  · exact (decisions_toDecisionScript hk entries).trans (decisions_toDecisionScript hk entries').symm

theorem rolloutScript_perm {t : TablePolicy} (ht : t.Normalized) {entries entries' : TableEntries}
    (he : entries.Perm t.table.entries) (he' : entries'.Perm t.table.entries) :
    TablePolicy.rolloutScript entries = TablePolicy.rolloutScript entries' := by
  rw [TablePolicy.rolloutScript, TablePolicy.rolloutScript, (he.trans he'.symm).any_eq,
    toDecisionScript_perm ht he he']

section
variable {S γ : Type} [SearchRng γ] (cfg : PolicySearchConfig) (setup : Setup S γ) (stats : Stats) (orders orders' : HashOrders)

theorem runRollout_congr {entries entries' : TableEntries}
    (h : TablePolicy.rolloutScript entries = TablePolicy.rolloutScript entries')
    (trialSeedBase : BitVec 64) (trialIndex : Nat) :
    runRollout cfg setup entries trialSeedBase trialIndex =
      runRollout cfg setup entries' trialSeedBase trialIndex := by
  rw [runRollout, runRollout, h]

theorem evalTrials_congr {entries entries' : Nat → TableEntries}
    (h : ∀ i, TablePolicy.rolloutScript (entries i) = TablePolicy.rolloutScript (entries' i))
    (phase : FailurePhase) (policyIndex : Nat) (trialSeedBase : BitVec 64)
    (maxFailureTraces n i : Nat) (r : EvalResult S) :
    evalTrials cfg setup entries phase policyIndex trialSeedBase maxFailureTraces n i r =
      evalTrials cfg setup entries' phase policyIndex trialSeedBase maxFailureTraces n i r := by
  induction n generalizing i r with
  | zero => rfl
  | succ n ih =>
    rw [evalTrials, evalTrials, runRollout_congr cfg setup (h i)]
    exact Option.bind_congr fun rr _ => ih ..

/-- A plain table is evaluated in the same way whatever the order of its entries in the trials. -/
theorem evalPolicy_orders {policy : TablePolicy} (hp : policy.Plain) (phase : FailurePhase)
    (policyIndex trials : Nat) (trialSeedBase : BitVec 64) (maxFailureTraces : Nat) :
    evalPolicy cfg setup stats (orders.entries phase policyIndex policy) phase policyIndex trials trialSeedBase maxFailureTraces =
      evalPolicy cfg setup stats (orders'.entries phase policyIndex policy) phase policyIndex trials trialSeedBase
        maxFailureTraces := by
  rw [evalPolicy, evalPolicy, evalTrials_congr cfg setup fun i =>
    rolloutScript_perm hp.normalized (orders.entries_perm phase policyIndex policy i)
      (orders'.entries_perm phase policyIndex policy i)]

/-! ## The whole search -/

theorem mutateKey_plain {base next : TablePolicy} (hb : base.Plain) {key : DecisionKey} {rng rng' : γ}
    (h : mutateKey base key rng = (some next, rng')) : next.Plain := by
  obtain ⟨id, -, rfl⟩ := Option.map_eq_some_iff.mp (congrArg Prod.fst h)
  exact hb.setDeterministic key id

theorem mutateOne_plain {base next : TablePolicy} (hb : base.Plain) {keys : List DecisionKey} {rng rng' : γ}
    (h : mutateOne base keys rng = (some next, rng')) : next.Plain := by
  unfold mutateOne at h
  split at h
  · cases h
  · exact mutateKey_plain hb h

theorem keys_perm (i : Nat) (s : Finset DecisionKey) : (orders.keys i s).Perm (orders'.keys i s) :=
  Multiset.coe_eq_coe.mp ((orders.keys_perm i s).trans (orders'.keys_perm i s).symm)

theorem searchLoop_orders {s : Search S γ} (hs : s.bestPolicy.Plain) (n k : Nat) :
    searchLoop cfg setup stats orders n k s = searchLoop cfg setup stats orders' n k s ∧
      ∀ s', searchLoop cfg setup stats orders n k s = some s' → s'.bestPolicy.Plain := by
  induction n generalizing k s with
  | zero =>
    refine ⟨rfl, ?_⟩
    rintro _ ⟨⟩
    exact hs
  | succ n ih =>
    rw [searchLoop, searchLoop, ← mutateOne_perm s.bestPolicy
      (keys_perm orders orders' (k + 1) s.observedKeys)]
    cases hm : mutateOne s.bestPolicy (orders.keys (k + 1) s.observedKeys) s.mutationRng with
    | mk candidate mutationRng =>
      cases candidate with
      | none =>
        refine ⟨rfl, ?_⟩
        rintro _ ⟨⟩
        exact hs
      | some candidate =>
        have hc : candidate.Plain := mutateOne_plain hs hm
        simp only
        rw [evalPolicy_orders cfg setup stats orders orders' hc]
        -- the better one of two plain tables goes on
        refine ⟨Option.bind_congr fun r _ => (ih ?_ (k + 1)).1, fun s' hs' => ?_⟩
        · split
          · exact hc
          · exact hs
        · obtain ⟨r, -, hr⟩ := Option.bind_eq_some_iff.mp hs'
          refine (ih ?_ (k + 1)).2 s' hr
          split
          · exact hc
          · exact hs

end

/-- The order in which the hash set of the keys is iterated makes no difference: one mutation has
the same result, and leaves the generator in the same state, for any two orders of the same keys;
and two searches with the same configuration evaluate the same candidates, with the same report,
whatever the orders of their hash sets and hash maps. -/
theorem search_orders {S γ : Type} [SearchRng γ] (base : TablePolicy) (rng : γ) (cfg : PolicySearchConfig) (setup : Setup S γ)
    (stats : Stats) (orders orders' : HashOrders) :
    (∀ keys keys' : List DecisionKey, keys.Perm keys' → mutateOne base keys rng = mutateOne base keys' rng) ∧
      searchPolicy cfg setup stats orders = searchPolicy cfg setup stats orders' := by
  refine ⟨fun keys keys' h => mutateOne_perm base h rng, ?_⟩
  unfold searchPolicy
  split
  · rfl
  split
  · rfl
  have hstart : searchStart cfg setup stats orders = searchStart cfg setup stats orders' := by
    rw [searchStart, searchStart, evalPolicy_orders cfg setup stats orders orders' TablePolicy.plain_new]
  rw [hstart]
  refine congrArg _ (Option.bind_congr fun s hs => ?_)
  have hs : s.bestPolicy.Plain := by
    obtain ⟨r, -, rfl⟩ := Option.map_eq_some_iff.mp hs
    exact TablePolicy.plain_new
  obtain ⟨hloop, hplain⟩ := searchLoop_orders cfg setup stats orders orders' hs cfg.budgetPolicies 0
  rw [← hloop]
  refine Option.bind_congr fun s hs => ?_
  rw [searchHoldout, searchHoldout, evalPolicy_orders cfg setup stats orders orders' (hplain s hs)]

/-- A generator that counts. -/
instance countingSearchRng : SearchRng Nat where
  seedFromU64 seed := seed.toNat
  genRange rng n := (rng % n, rng + 1)
  genIndex rng n := (rng % n, rng + 1)
  genIndex_lt rng h := Nat.mod_lt rng h

/-- Hash sets that are iterated backwards every other time. -/
noncomputable def turning (backwards : Bool) : HashOrders where
  keys i s := if xor backwards (i % 2 = 0) then s.toList.reverse else s.toList
  entries _ _ policy i := if xor backwards (i % 2 = 0) then policy.table.entries.reverse else policy.table.entries
  keys_perm i s := by
    split
    · exact (Multiset.coe_reverse _).trans s.coe_toList
    · exact s.coe_toList
  entries_perm _ _ policy i := by
    split
    · exact List.reverse_perm _
    · exact .refl _

/-- Two choices among tasks, the second one at the same time as the first. -/
def twoDecisions : List DecisionKey := [.new .tokioReady 5 0 [1, 2], .new .tokioReady 5 1 [3, 4]]

theorem search_orders_turning :
    let cfg : PolicySearchConfig := ⟨1, true, .fifo, .fifo, 3, 2, 2, 0, .pHat, 4, 7⟩
    let setup : Setup Unit Nat := ⟨fun _ _ _ =>
      ⟨.ok (), twoDecisions.map fun k => .asyncRuntimeDecision ⟨k.timeNanos, 0, k.choiceSet.head?, k.choiceSet⟩⟩, fun _ => true⟩
    let stats : Stats := ⟨fun _ _ => 0, fun _ _ _ => none⟩
    ((mutateOne .new twoDecisions.reverse 3).1.map fun t => twoDecisions.map t.get) = some [none, some (.deterministic 4)] ∧
      mutateOne .new twoDecisions 3 = mutateOne .new twoDecisions.reverse 3 ∧
      searchPolicy cfg setup stats (turning true) = searchPolicy cfg setup stats (turning false) := by
  intro cfg setup stats
  obtain ⟨hmutate, hsearch⟩ := search_orders .new 3 cfg setup stats (turning true) (turning false)
  exact ⟨by decide, hmutate _ _ (List.reverse_perm _).symm, hsearch⟩

end DesCartes.Explore
