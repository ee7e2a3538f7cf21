import DesCartes.Framework.Machine
import DesCartes.Framework.Trace
import DesCartes.Impl.Components
import DesCartes.Proof.Ids

/-!
# The keys of components

`run_keys`: the keys that the calls of a run on one simulation return are distinct, no component replaces
another and every event for a key reaches the component of the key, exactly when no number of a component
that was added is the number of one that was registered, up to the seed.

`add_component` and `register` count for themselves, and `register` always uses the seed 0, so the
condition cannot be left out: with the seed 0 their first keys are the same (`seedZero_replaces`).
-/

namespace DesCartes

theorem Components.idAt_eq_iff {s s' : BitVec 64} {n n' : Nat} :
    idAt s n = idAt s' n' ↔ s ^^^ BitVec.ofNat 64 n = s' ^^^ BitVec.ofNat 64 n' := by
  rw [idAt, idAt, Ids.deterministicUuid_eq_iff, BitVec.xor_assoc, BitVec.xor_assoc,
    BitVec.xor_comm Ids.uuidDomainComponent,
    BitVec.xor_comm Ids.uuidDomainComponent, ← BitVec.xor_assoc, ← BitVec.xor_assoc, BitVec.xor_left_inj]

theorem Components.idAt_eq_idAt_zero {s : BitVec 64} {n n' : Nat} :
    idAt s n = idAt 0 n' ↔ s ^^^ BitVec.ofNat 64 n = BitVec.ofNat 64 n' := by
  rw [idAt_eq_iff, BitVec.ofNat_eq_ofNat, BitVec.zero_xor]

/-- The ids of one generator are distinct. -/
theorem Components.idAt_inj {seed : BitVec 64} {m n : Nat} (hm : m ≤ u64Max) (hn : n ≤ u64Max)
    (h : idAt seed m = idAt seed n) :
    m = n :=
  Ids.ofNat_inj hm hn (Ids.deterministicUuid_inj h)

namespace Simulation

variable {κ ε τ ρ φ : Type}

/-- The key that a call returned. -/
def key? : Returned ε → Option Uuid
  | .key id _ => some id
  | _ => none

/-- The keys that the calls returned, in order. -/
def keys (answers : List (Returned ε)) : List Uuid := answers.filterMap key?

/-- An event for the `i`th key goes to the `i`th component. -/
def Reaches (before : List (Returned ε)) (answer : Returned ε) : Prop :=
  ∀ seq time key event receiver drained, answer = .stepped (some (.component seq time key event)) receiver drained →
    ∀ i, (keys before)[i]? = some key → receiver = some i

/-- How often `add_component` is called. -/
def added (calls : List (Call κ ε τ φ)) : Nat := calls.countP fun | .addComponent _ => true | _ => false

/-- How often `register` is called. -/
def registered (calls : List (Call κ ε τ φ)) : Nat := calls.countP fun | .register _ => true | _ => false

/-! ## What a call does -/

end Simulation

/-- The components are the same, each with what its code has made of it. -/
structure Components.Same {κ : Type} (c c' : Components κ) : Prop where
  nextComponentId : c'.nextComponentId = c.nextComponentId
  idSeed : c'.idSeed = c.idSeed
  number : ∀ id, (c'.components id).map (·.number) = (c.components id).map (·.number)

theorem Components.same_processEventEntry {κ ε τ ρ : Type} (code : Code κ ε τ ρ) (c : Components κ)
    (s : Scheduler ε τ ρ) (event : EventEntry ε) : c.Same (c.processEventEntry code s event).1 := by
  cases event with
  | task => exact ⟨rfl, rfl, fun _ => rfl⟩
  | component seq time key inner =>
    simp only [processEventEntry]
    split
    · exact ⟨rfl, rfl, fun _ => rfl⟩
    · rename_i r hr
      refine ⟨rfl, rfl, fun id => ?_⟩
      by_cases hid : id = key
      · simp [hid, hr]
      · simp [Function.update_of_ne hid]

namespace Simulation

variable {κ ε τ ρ φ : Type}

/-- What a call does to the components, by what it returns. -/
inductive Called (sim : Simulation κ ε τ ρ φ) : Call κ ε τ φ → Simulation κ ε τ ρ φ → Returned ε → Prop where
  | kept {call : Call κ ε τ φ} {sim' : Simulation κ ε τ ρ φ} {a : Returned ε} (hadd : added [call] = 0)
      (hreg : registered [call] = 0) (hseed : sim'.seed = sim.seed) (hnext : sim'.nextComponentId = sim.nextComponentId)
      (hsame : sim.components.Same sim'.components) (hkey : key? a = none)
      (hrecv : ∀ seq time key event receiver drained, a = .stepped (some (.component seq time key event)) receiver drained →
        receiver = (sim.components.components key).map (·.number)) : Called sim call sim' a
  | added (component : κ) (hlt : sim.nextComponentId < u64Max) : Called sim (.addComponent component)
      { sim.insert (Components.idAt sim.seed (sim.nextComponentId + 1)) component |>.1 with
        nextComponentId := sim.nextComponentId + 1 }
      (.key (Components.idAt sim.seed (sim.nextComponentId + 1))
        (sim.components.components (Components.idAt sim.seed (sim.nextComponentId + 1))).isSome)
  | registered (component : κ) (hlt : sim.components.nextComponentId < u64Max) : Called sim (.register component)
      { sim with components := { sim.components.registerWithId
        (Components.idAt sim.components.idSeed (sim.components.nextComponentId + 1)) ⟨component, sim.registrations⟩ with
          nextComponentId := sim.components.nextComponentId + 1 } }
      (.key (Components.idAt sim.components.idSeed (sim.components.nextComponentId + 1))
        (sim.components.components (Components.idAt sim.components.idSeed (sim.components.nextComponentId + 1))).isSome)

theorem called_of_call [EventFrontierPolicy φ] {code : Code κ ε τ ρ} {self : Nat}
    {s s' : Simulation κ ε τ ρ φ × List (Nat × DeferredWake ε)} {op : Call κ ε τ φ} {a : Returned ε}
    (h : call code self s op = some (s', a)) : Called s.1 op s'.1 a := by
  obtain ⟨sim, deferred⟩ := s
  have hsame : sim.components.Same sim.components := ⟨rfl, rfl, fun _ => rfl⟩
  cases op with
  | setFrontierPolicy policy =>
    cases h
    exact .kept rfl rfl rfl rfl hsame rfl (by simp)
  | addComponent component =>
    simp only [call, addComponent] at h
    split at h
    · rename_i hlt
      cases h
      exact .added component hlt
    · cases h
  | register component =>
    simp only [call, register] at h
    split at h
    · rename_i hlt
      cases h
      exact .registered component hlt
    · cases h
  | schedule time component event =>
    cases h
    exact .kept rfl rfl rfl rfl hsame rfl (by simp)
  | scheduleTask delay task =>
    cases h
    exact .kept rfl rfl rfl rfl hsame rfl (by simp)
  | deferWakeAfter wake =>
    cases h
    exact .kept rfl rfl rfl rfl hsame rfl (by simp)
  | step =>
    simp only [call, step, Option.some.injEq] at h
    split at h
    · cases h
      exact .kept rfl rfl rfl rfl hsame rfl (by simp)
    · cases h
      refine .kept rfl rfl rfl rfl (Components.same_processEventEntry _ _ _ _) rfl ?_
      intro seq time key event receiver drained e
      cases e
      rfl

/-! ## The keys -/

/-- The ids with the numbers from 1 to `n`. -/
def ids (seed : BitVec 64) (n : Nat) : List Uuid := (List.range n).map fun k => Components.idAt seed (k + 1)

theorem ids_succ (seed : BitVec 64) (n : Nat) :
    ids seed (n + 1) = ids seed n ++ [Components.idAt seed (n + 1)] := by
  simp [ids, List.range_succ]

theorem length_ids (seed : BitVec 64) (n : Nat) : (ids seed n).length = n := by simp [ids]

/-- Where the keys come from. -/
structure Numbered (seed : BitVec 64) (sim : Simulation κ ε τ ρ φ) (answers : List (Returned ε)) : Prop where
  seed_eq : sim.seed = seed
  idSeed : sim.components.idSeed = 0
  next_le : sim.nextComponentId ≤ u64Max
  components_le : sim.components.nextComponentId ≤ u64Max
  perm : (keys answers).Perm (ids seed sim.nextComponentId ++ ids 0 sim.components.nextComponentId)

/-- The `i`th key is that of the `i`th component. -/
structure Sound (sim : Simulation κ ε τ ρ φ) (answers : List (Returned ε)) : Prop where
  found : ∀ i id, (keys answers)[i]? = some id → (sim.components.components id).map (·.number) = some i
  known : ∀ id, (sim.components.components id).isSome = true → id ∈ keys answers
  fresh : ∀ id, .key id true ∉ answers
  reaches : Trace.Each Reaches answers

section
variable {seed : BitVec 64} {sim sim' : Simulation κ ε τ ρ φ} {answers : List (Returned ε)} {op : Call κ ε τ φ} {a : Returned ε}

theorem keys_concat (answers : List (Returned ε)) (a : Returned ε) :
    keys (answers ++ [a]) = keys answers ++ (key? a).toList := by
  cases h : key? a <;> simp [keys, h]

theorem Numbered.length (h : Numbered seed sim answers) : (keys answers).length = sim.registrations := by
  rw [h.perm.length_eq, List.length_append, length_ids, length_ids, registrations]

theorem Numbered.step (h : Numbered seed sim answers) (hc : Called sim op sim' a) :
    Numbered seed sim' (answers ++ [a]) := by
  cases hc with
  | kept hadd hreg hseed hnext hsame hkey hrecv =>
    refine ⟨hseed.trans h.seed_eq, hsame.idSeed.trans h.idSeed, hnext ▸ h.next_le,
      hsame.nextComponentId ▸ h.components_le, ?_⟩
    rw [keys_concat, hkey, hnext, hsame.nextComponentId, Option.toList_none, List.append_nil]
    exact h.perm
  | added component hlt =>
    refine ⟨h.seed_eq, h.idSeed, Nat.succ_le_of_lt hlt, h.components_le, ?_⟩
    show (keys (answers ++ [_])).Perm
      (ids seed (sim.nextComponentId + 1) ++ ids 0 sim.components.nextComponentId)
    have hperm := h.perm.append_right [Components.idAt seed (sim.nextComponentId + 1)]
    rw [List.append_assoc] at hperm
    rw [keys_concat, ids_succ, h.seed_eq, List.append_assoc]
    exact hperm.trans (List.perm_append_comm.append_left _)
  | registered component hlt =>
    refine ⟨h.seed_eq, h.idSeed, h.next_le, Nat.succ_le_of_lt hlt, ?_⟩
    show (keys (answers ++ [_])).Perm (ids seed sim.nextComponentId ++ ids 0
      (sim.components.nextComponentId + 1))
    rw [keys_concat, ids_succ, h.idSeed, ← List.append_assoc]
    exact h.perm.append_right _

/-- A component is registered under a key that is new. -/
theorem Sound.insert (h : Sound sim answers) (hlen : (keys answers).length = sim.registrations)
    {id : Uuid} {component : κ} (hid : id ∉ keys answers)
    (hcomp : sim'.components.components = Function.update sim.components.components id
      (some ⟨component, sim.registrations⟩)) :
    Sound sim' (answers ++ [Returned.key id (sim.components.components id).isSome]) := by
  have hnew : (sim.components.components id).isSome = false := by
    by_contra hno
    exact hid (h.known id (Bool.eq_true_of_not_eq_false hno))
  rw [hnew]
  refine ⟨fun i x hx => ?_, fun x hx => ?_, fun x hx => ?_, h.reaches.concat fun _ _ _ _ _ _ e => nomatch e⟩
  · rw [hcomp]
    rw [keys_concat, key?, Option.toList_some] at hx
    by_cases hi : i < (keys answers).length
    · rw [List.getElem?_append_left hi] at hx
      have hne : x ≠ id := by
        rintro rfl
        exact hid (List.mem_of_getElem? hx)
      rw [Function.update_of_ne hne]
      exact h.found i x hx
    · rw [List.getElem?_append_right (by omega), List.getElem?_singleton] at hx
      split at hx
      · cases hx
        rw [Function.update_self, Option.map_some, ← hlen, Option.some.injEq]
        show (keys answers).length = i
        omega
      · cases hx
  · rw [hcomp] at hx
    rw [keys_concat, key?, Option.toList_some]
    by_cases hne : x = id
    · rw [hne]
      exact List.mem_append_right _ (List.mem_singleton_self id)
    · rw [Function.update_of_ne hne] at hx
      exact List.mem_append_left _ (h.known x hx)
  · rcases List.mem_append.mp hx with hx | hx
    · exact h.fresh x hx
    · simp at hx

theorem Sound.step (h : Sound sim answers) (hn : Numbered seed sim answers) (hc : Called sim op sim' a)
    (hnodup : (keys (answers ++ [a])).Nodup) : Sound sim' (answers ++ [a]) := by
  cases hc with
  | kept hadd hreg hseed hnext hsame hkey hrecv =>
    have hkeys : keys (answers ++ [a]) = keys answers := by
      rw [keys_concat, hkey, Option.toList_none, List.append_nil]
    refine ⟨fun i id hi => ?_, fun id hid => ?_, fun id hid => ?_, h.reaches.concat ?_⟩
    · rw [hkeys] at hi
      rw [hsame.number]
      exact h.found i id hi
    · rw [hkeys]
      refine h.known id ?_
      have := congrArg Option.isSome (hsame.number id)
      simpa [hid] using this
    · rcases List.mem_append.mp hid with hid | hid
      · exact h.fresh id hid
      · rw [← List.mem_singleton.mp hid] at hkey
        cases hkey
    · intro seq time key event receiver drained e i hi
      rw [hrecv seq time key event receiver drained e]
      exact h.found i key hi
  | added component hlt =>
    rw [keys_concat] at hnodup
    exact h.insert hn.length (fun hid => List.disjoint_of_nodup_append hnodup hid
      (List.mem_singleton_self _)) rfl
  | registered component hlt =>
    rw [keys_concat] at hnodup
    exact h.insert hn.length (fun hid => List.disjoint_of_nodup_append hnodup hid
      (List.mem_singleton_self _)) rfl

end

/-! ## Runs -/

section
variable [EventFrontierPolicy φ] {code : Code κ ε τ ρ} {self : Nat}
  {s s' : Simulation κ ε τ ρ φ × List (Nat × DeferredWake ε)} {calls : List (Call κ ε τ φ)} {answers : List (Returned ε)}

omit [EventFrontierPolicy φ] in
theorem Called.next {sim sim' : Simulation κ ε τ ρ φ} {op : Call κ ε τ φ} {a : Returned ε}
    (h : Called sim op sim' a) :
    sim'.nextComponentId = sim.nextComponentId + Simulation.added [op] ∧
    sim'.components.nextComponentId = sim.components.nextComponentId + Simulation.registered [op] := by
  cases h with
  | kept hadd hreg hseed hnext hsame hkey hrecv =>
    exact ⟨by rw [hadd, hnext]; rfl, by rw [hreg, hsame.nextComponentId]; rfl⟩
  | added component hlt => exact ⟨rfl, rfl⟩
  | registered component hlt => exact ⟨rfl, rfl⟩

/-- The counters count the calls. -/
theorem next_of_run (h : Machine.run (call code self) s calls = some (s', answers)) :
    s'.1.nextComponentId = s.1.nextComponentId + added calls ∧
    s'.1.components.nextComponentId = s.1.components.nextComponentId + registered calls := by
  induction calls generalizing s answers with
  | nil =>
    rw [(Machine.run_nil.mp h).1]
    exact ⟨rfl, rfl⟩
  | cons op calls ih =>
    obtain ⟨u, a, answers', hs, hrun, -⟩ := Machine.run_cons.mp h
    obtain ⟨hnext, hcomp⟩ := ih hrun
    obtain ⟨hnext', hcomp'⟩ := (called_of_call hs).next
    have hadd : added ([op] ++ calls) = added [op] + added calls := List.countP_append
    have hreg : registered ([op] ++ calls) = registered [op] + registered calls := List.countP_append
    rw [List.singleton_append] at hadd hreg
    omega

theorem sound_of_run {seed : BitVec 64} {policy : φ} {deferred : List (Nat × DeferredWake ε)}
    (h : Machine.run (call code self) (.new seed policy, deferred) calls = some (s', answers)) :
    Numbered seed s'.1 answers ∧ ((keys answers).Nodup → Sound s'.1 answers) := by
  have h₀ : Numbered seed (Simulation.new seed policy : Simulation κ ε τ ρ φ) [] ∧
      ((keys ([] : List (Returned ε))).Nodup →
        Sound (Simulation.new seed policy : Simulation κ ε τ ρ φ) []) := by
    refine ⟨⟨rfl, rfl, Nat.zero_le _, Nat.zero_le _, .nil⟩,
      fun _ => ⟨fun i id hi => ?_, fun id hid => ?_, by simp, .nil⟩⟩
    · simp [keys] at hi
    · cases hid
  refine Machine.run_history (P := fun s answers => Numbered seed s.1 answers ∧
    ((keys answers).Nodup → Sound s.1 answers))
    (fun s op u a answers hs hu => ?_) h₀ h
  have hc := called_of_call hu
  refine ⟨hs.1.step hc, fun hnodup => (hs.2 ?_).step hs.1 hc hnodup⟩
  rw [keys_concat] at hnodup
  exact hnodup.of_append_left

theorem nodup_ids (seed : BitVec 64) {n : Nat} (hn : n ≤ u64Max) : (ids seed n).Nodup := by
  refine List.Nodup.map_on (fun i hi j hj e => ?_) List.nodup_range
  have hi := List.mem_range.mp hi
  have hj := List.mem_range.mp hj
  have := Components.idAt_inj (by omega) (by omega) e
  omega

/-- The ids of two generators are disjoint exactly when the words are that they mix. -/
theorem disjoint_ids {seed : BitVec 64} {m n : Nat} : (ids seed m).Disjoint (ids 0 n) ↔
    ∀ k k', 1 ≤ k → k ≤ m → 1 ≤ k' → k' ≤ n → seed ^^^ BitVec.ofNat 64 k ≠ BitVec.ofNat 64 k' := by
  have hmem : ∀ {s : BitVec 64} {n k : Nat}, 1 ≤ k → k ≤ n → Components.idAt s k ∈ ids s n := by
    intro s n k h₁ hn
    exact List.mem_map.mpr ⟨k - 1, List.mem_range.mpr (by omega), by rw [Nat.sub_add_cancel h₁]⟩
  constructor
  · intro h k k' h₁ hm h₁' hn e
    have hid : Components.idAt seed k = Components.idAt 0 k' := Components.idAt_eq_idAt_zero.mpr e
    have hzero := hmem h₁' hn (s := 0)
    rw [← hid] at hzero
    exact h (hmem h₁ hm) hzero
  · intro h id hm hn
    obtain ⟨k, hk, rfl⟩ := List.mem_map.mp hm
    obtain ⟨k', hk', e⟩ := List.mem_map.mp hn
    have hk := List.mem_range.mp hk
    have hk' := List.mem_range.mp hk'
    exact h (k + 1) (k' + 1) (by omega) (by omega) (by omega) (by omega)
      (Components.idAt_eq_idAt_zero.mp e.symm)

/-- The keys of a run are distinct, no component replaces another, and every event for a key reaches
its component, exactly when no word that `add_component` mixes is one that `register` does. -/
theorem run_keys {seed : BitVec 64} {policy : φ} {deferred : List (Nat × DeferredWake ε)}
    (h : Machine.run (call code self) (.new seed policy, deferred) calls = some (s', answers)) :
    ((keys answers).Nodup ∧ (∀ id, .key id true ∉ answers) ∧ Trace.Each Reaches answers) ↔
      ∀ n n', 1 ≤ n → n ≤ added calls → 1 ≤ n' → n' ≤ registered calls →
        seed ^^^ BitVec.ofNat 64 n ≠ BitVec.ofNat 64 n' := by
  obtain ⟨hn, hsound⟩ := sound_of_run h
  have hnext := next_of_run h
  have hadd : s'.1.nextComponentId = added calls := hnext.1.trans (Nat.zero_add _)
  have hreg : s'.1.components.nextComponentId = registered calls := hnext.2.trans (Nat.zero_add _)
  have hnodup : (keys answers).Nodup ↔ (ids seed (added calls)).Disjoint (ids 0 (registered calls)) := by
    rw [hn.perm.nodup_iff, List.nodup_append', hadd, hreg]
    have h₁ := nodup_ids seed (hadd ▸ hn.next_le)
    have h₂ := nodup_ids 0 (hreg ▸ hn.components_le)
    exact ⟨fun h => h.2.2, fun h => ⟨h₁, h₂, h⟩⟩
  rw [← disjoint_ids, ← hnodup]
  exact ⟨fun h => h.1, fun h => ⟨h, (hsound h).fresh, (hsound h).reaches⟩⟩

end

/-- A simulation whose components do nothing. -/
def inertNew (seed : BitVec 64) : Simulation Unit Unit Unit Unit FifoFrontierPolicy × List (Nat × DeferredWake Unit) :=
  (.new seed .mk, [])

theorem run_keys_default : ∃ s answers,
    Machine.run (call .inert 0) (inertNew 42) [.addComponent (), .register (), .addComponent (),
      .schedule .zero (Components.idAt 42 2) (), .step] = some (s, answers) ∧
    (keys answers).Nodup ∧ Trace.Each Reaches answers := by
  have h : Machine.run (call .inert 0) (inertNew 42) [.addComponent (), .register (), .addComponent (),
    .schedule .zero (Components.idAt 42 2) (), .step] = some (_, _) := rfl
  have hkeys := (run_keys h).mpr fun n n' h₁ hn h₁' hn' => by
    have hn : n ≤ 2 := hn
    have hn' : n' ≤ 1 := hn'
    obtain rfl : n' = 1 := by omega
    obtain rfl | rfl : n = 1 ∨ n = 2 := by omega
    · decide
    · decide
  exact ⟨_, _, h, hkeys.1, hkeys.2.2⟩

/-- With the seed 0, the first component that is registered replaces the first one that was added. -/
theorem seedZero_replaces : ∃ s answers,
    Machine.run (call .inert 0) (inertNew 0) [.addComponent (), .register ()] = some (s, answers) ∧
    ¬ ((keys answers).Nodup ∧ (∀ id, .key id true ∉ answers) ∧ Trace.Each Reaches answers) := by
  have h : Machine.run (call .inert 0) (inertNew 0) [.addComponent (), .register ()] = some (_, _) := rfl
  refine ⟨_, _, h, fun hno => ?_⟩
  have hnodup : [Components.idAt 0 1, Components.idAt 0 1].Nodup := hno.1
  simp at hnodup

end Simulation

end DesCartes
