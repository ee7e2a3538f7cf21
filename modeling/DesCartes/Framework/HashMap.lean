import Mathlib.Algebra.GroupWithZero.Nat
import Mathlib.Data.List.AList

/-!
# Hash maps

What the programs use of `std::collections::HashMap` beyond Mathlib's association lists:
`mapEntries` is a loop over `iter_mut()`, `mapValues` over `values_mut()`, `upsert` changes a value
that is got with `entry().or_insert()`, `len` is the number of entries.

* `lookup_mapEntries`, `lookup_mapValues`, `lookup_upsert`: what is found after each;
  `lookup_insert_eq_update`, `lookup_erase_eq_update`: all that is found after an insertion or a
  removal, as one function; `lookup_insert_eq_some`, `lookup_erase_eq_some`: where a value comes
  from that is found after one;
* `len_insert`, `len_insert_of_lookup`, `len_erase`: how the number of entries changes; `total_insert`,
  `total_insert_of_lookup`, `total_erase`: how a sum over the values does;
* `filter_notMem_erase`, `filter_notMem_insert`: the keys that are gone after a change.
-/

namespace AList

variable {α β γ δ : Type}

/-- Every value is changed, as its key says. -/
def mapEntries (f : α → β → γ) (m : AList fun _ : α => β) : AList fun _ : α => γ where
  entries := m.entries.map fun e => ⟨e.1, f e.1 e.2⟩
  nodupKeys := by
    rw [List.NodupKeys, List.keys, List.map_map]
    exact m.nodupKeys

/-- Every value is changed. -/
def mapValues (f : β → γ) (m : AList fun _ : α => β) : AList fun _ : α => γ := m.mapEntries fun _ => f

/-- The sum of the values. -/
def total (f : β → Nat) (m : AList fun _ : α => β) : Nat := (m.entries.map fun e => f e.2).sum

/-- `HashMap::len`. -/
def len (m : AList fun _ : α => β) : Nat := m.entries.length

@[simp] theorem mapValues_mapValues {f : β → γ} {g : γ → δ} {m : AList fun _ : α => β} :
    (m.mapValues f).mapValues g = m.mapValues fun b => g (f b) := by
  refine AList.ext ?_
  simp only [mapValues, mapEntries, List.map_map]
  rfl

theorem mapValues_congr {f g : β → γ} {m : AList fun _ : α => β} (h : ∀ e ∈ m.entries, f e.2 = g e.2) :
    m.mapValues f = m.mapValues g := by
  refine AList.ext (List.map_congr_left fun e he => ?_)
  simp only [h e he]

variable [DecidableEq α]

/-- The value of the key, or `d` where there is none, is changed. The other entries keep their places. -/
def upsert (k : α) (d : β) (f : β → β) (m : AList fun _ : α => β) : AList fun _ : α => β :=
  if k ∈ m then m.mapEntries fun a b => if a = k then f b else b else m.insert k (f d)

theorem mem_entries_iff {m : AList fun _ : α => β} {k : α} {b : β} :
    ⟨k, b⟩ ∈ m.entries ↔ m.lookup k = some b :=
  (mem_lookup_iff (s := m)).symm

theorem lookup_mapEntries {f : α → β → γ} {m : AList fun _ : α => β} {k : α} :
    (m.mapEntries f).lookup k = (m.lookup k).map (f k) := by
  obtain ⟨l, hl⟩ := m
  induction l with
  | nil => rfl
  | cons e l ih =>
    obtain ⟨a, b⟩ := e
    have ih := ih (List.nodupKeys_cons.mp hl).2
    simp only [lookup, mapEntries, List.map_cons] at ih ⊢
    by_cases h : a = k
    · subst h
      rw [List.dlookup_cons_eq, List.dlookup_cons_eq, Option.map_some]
    · rw [List.dlookup_cons_ne _ _ (Ne.symm h), List.dlookup_cons_ne _ _ (Ne.symm h), ih]

@[simp] theorem lookup_mapValues {f : β → γ} {m : AList fun _ : α => β} {k : α} :
    (m.mapValues f).lookup k = (m.lookup k).map f := lookup_mapEntries

theorem lookup_upsert {k j : α} {d : β} {f : β → β} {m : AList fun _ : α => β} :
    (m.upsert k d f).lookup j = if j = k then some (f ((m.lookup k).getD d)) else m.lookup j := by
  rw [upsert]
  split
  · rename_i hk
    obtain ⟨b, hb⟩ := Option.isSome_iff_exists.mp (lookup_isSome.mpr hk)
    rw [lookup_mapEntries]
    split
    · rename_i e
      subst e
      rw [hb, Option.map_some, Option.getD_some]
    · rename_i e
      cases m.lookup j with
      | none => rfl
      | some b => rfl
  · rename_i hk
    split
    · rename_i e
      rw [e, lookup_insert, lookup_eq_none.mpr hk, Option.getD_none]
    · rename_i e
      rw [lookup_insert_ne e]

theorem lookup_insert_eq_update (m : AList fun _ : α => β) (k : α) (b : β) :
    (m.insert k b).lookup = Function.update m.lookup k (some b) := by
  funext j
  by_cases h : j = k
  · rw [h, lookup_insert, Function.update_self]
  · rw [lookup_insert_ne h, Function.update_of_ne h]

theorem lookup_erase_eq_update (m : AList fun _ : α => β) (k : α) :
    (m.erase k).lookup = Function.update m.lookup k none := by
  funext j
  by_cases h : j = k
  · rw [h, lookup_erase, Function.update_self]
  · rw [lookup_erase_ne h, Function.update_of_ne h]

/-- A value that is found after an insertion is the new one, or was there. -/
theorem lookup_insert_eq_some {m : AList fun _ : α => β} {k j : α} {b c : β} :
    (m.insert k b).lookup j = some c ↔ j = k ∧ b = c ∨ j ≠ k ∧ m.lookup j = some c := by
  by_cases h : j = k
  · rw [h, lookup_insert, Option.some.injEq]
    simp
  · rw [lookup_insert_ne h]
    simp [h]

/-- A value that is found after a removal was there, under another key. -/
theorem lookup_erase_eq_some {m : AList fun _ : α => β} {k j : α} {c : β} :
    (m.erase k).lookup j = some c ↔ j ≠ k ∧ m.lookup j = some c := by
  by_cases h : j = k
  · rw [h, lookup_erase]
    simp
  · rw [lookup_erase_ne h]
    simp [h]

theorem len_erase {m : AList fun _ : α => β} {k : α} {b : β} (h : m.lookup k = some b) :
    (m.erase k).len + 1 = m.len := by
  have hk : k ∈ m.keys := mem_keys.mp (lookup_isSome.mp (h ▸ rfl))
  have hlen : ∀ m : AList fun _ : α => β, m.len = m.keys.length := fun m => (List.length_map _).symm
  rw [hlen, hlen, keys_erase, List.length_erase_add_one hk]

theorem lookup_erase_cases (m : AList fun _ : α => β) (k j : α) :
    (m.erase k).lookup j = m.lookup j ∨ (m.erase k).lookup j = none := by
  by_cases h : j = k
  · exact .inr (h ▸ lookup_erase j m)
  · exact .inl (lookup_erase_ne h)

theorem insert_erase {m : AList fun _ : α => β} {k : α} {b : β} : (m.erase k).insert k b = m.insert k b :=
  AList.ext (congrArg (List.cons _) (List.kerase_of_notMem_keys (List.notMem_keys_kerase k m.nodupKeys)))

theorem len_insert {m : AList fun _ : α => β} {k : α} {b : β} (h : m.lookup k = none) :
    (m.insert k b).len = m.len + 1 := by
  rw [len, entries_insert_of_notMem (lookup_eq_none.mp h), List.length_cons, len]

theorem len_insert_of_lookup {m : AList fun _ : α => β} {k : α} {b d : β} (h : m.lookup k = some d) :
    (m.insert k b).len = m.len := by
  rw [← insert_erase, len_insert (lookup_erase k m), len_erase h]

theorem total_erase (f : β → Nat) {m : AList fun _ : α => β} {k : α} {b : β} (h : m.lookup k = some b) :
    (m.erase k).total f + f b = m.total f := by
  have hk : k ∈ m.entries.keys := mem_keys.mp (lookup_isSome.mp (h ▸ rfl))
  obtain ⟨b', l₁, l₂, -, hentries, hkerase⟩ := List.exists_of_kerase hk
  have hmem : (⟨k, b'⟩ : Sigma fun _ : α => β) ∈ m.entries := hentries ▸ by simp
  rw [mem_entries_iff, h, Option.some.injEq] at hmem
  subst hmem
  have herase : (m.erase k).entries = l₁ ++ l₂ := hkerase
  rw [total, total, herase, hentries]
  simp only [List.map_append, List.map_cons, List.sum_append, List.sum_cons]
  omega

theorem total_insert (f : β → Nat) {m : AList fun _ : α => β} {k : α} (b : β) (h : m.lookup k = none) :
    (m.insert k b).total f = m.total f + f b := by
  rw [total, entries_insert_of_notMem (lookup_eq_none.mp h), List.map_cons, List.sum_cons, total,
    Nat.add_comm]

theorem total_insert_of_lookup (f : β → Nat) {m : AList fun _ : α => β} {k : α} {d : β} (b : β)
    (h : m.lookup k = some d) : (m.insert k b).total f + f d = m.total f + f b := by
  rw [← insert_erase, total_insert f b (lookup_erase k m), ← total_erase f h]
  omega

theorem total_erase_le (f : β → Nat) (m : AList fun _ : α => β) (k : α) :
    (m.erase k).total f ≤ m.total f := by
  cases h : m.lookup k with
  | none => rw [show m.erase k = m from AList.ext (List.kerase_of_notMem_keys (lookup_eq_none.mp h))]
  | some b => exact (total_erase f h).symm ▸ Nat.le_add_right ..

theorem total_insert_le (f : β → Nat) (m : AList fun _ : α => β) (k : α) (b : β) :
    (m.insert k b).total f ≤ m.total f + f b := by
  rw [← insert_erase, total_insert f b (lookup_erase k m)]
  exact Nat.add_le_add_right (total_erase_le f m k) _

theorem filter_notMem_insert (m : AList fun _ : α => β) (k : α) (b : β) :
    m.keys.filter (· ∉ m.insert k b) = [] := by
  refine List.filter_eq_nil_iff.mpr fun a ha => ?_
  simpa using fun _ => mem_keys.mpr ha

theorem filter_notMem_erase {m : AList fun _ : α => β} {k : α} {b : β} (h : m.lookup k = some b) :
    m.keys.filter (· ∉ m.erase k) = [k] := by
  have hk : k ∈ m.keys := mem_keys.mp (lookup_isSome.mp (h ▸ rfl))
  have hfilter : m.keys.filter (· ∉ m.erase k) = m.keys.filter (· == k) := by
    refine List.filter_congr fun a ha => ?_
    simp [mem_keys.mpr ha, beq_eq_decide]
  rw [hfilter, List.filter_beq, List.count_eq_one_of_mem m.keys_nodup hk, List.replicate_one]

end AList
