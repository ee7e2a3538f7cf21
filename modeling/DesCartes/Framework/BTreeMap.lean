import Mathlib.Data.List.Sort
import Mathlib.Order.Basic

/-!
# Ordered maps

`std::collections::BTreeMap`: a finite map whose entries are read in ascending order of their
keys. It is kept as the list of its entries in that order, no key twice (`sorted`).

* `get?_eq_some`: a lookup finds exactly the entries;
* `get?_insert_of_ne`, `get?_erase_of_ne`: an operation on one key leaves the others alone;
* `mem_insert`, `mem_erase`, `mem_filterMapValues`: the entries after each operation;
* `consecutive`: what follows one another in a map of numbers;
* `firstKey?_eq_some`: the first key is the least one;
* `popFirst?_eq_some`: `pop_first` takes the first entry.
-/

namespace DesCartes

/-- A map with ordered keys: its entries, in ascending order of their keys. -/
structure BTreeMap (κ ν : Type) [LinearOrder κ] where
  entries : List (κ × ν)
  sorted : entries.Pairwise fun a b => a.1 < b.1

namespace BTreeMap

variable {κ ν : Type} [LinearOrder κ]

/-- `BTreeMap::new()`. -/
def empty : BTreeMap κ ν := ⟨[], .nil⟩

/-- `BTreeMap::len`. -/
def len (m : BTreeMap κ ν) : Nat := m.entries.length

/-- `BTreeMap::get`. -/
def get? (m : BTreeMap κ ν) (k : κ) : Option ν := (m.entries.find? fun e => e.1 = k).map (·.2)

/-- The entries after `k` is mapped to `v`: in place of an entry of `k`, or where it belongs. -/
def insertList (k : κ) (v : ν) : List (κ × ν) → List (κ × ν)
  | [] => [(k, v)]
  | e :: l => if k < e.1 then (k, v) :: e :: l else if k = e.1 then (k, v) :: l else e :: insertList k v l

theorem mem_insertList {k : κ} {v : ν} {l : List (κ × ν)} (hs : l.Pairwise fun a b => a.1 < b.1)
    {e : κ × ν} : e ∈ insertList k v l ↔ e = (k, v) ∨ e ∈ l ∧ e.1 ≠ k := by
  induction l with
  | nil => simp [insertList]
  | cons f l ih =>
    obtain ⟨hf, hl⟩ := List.pairwise_cons.mp hs
    simp only [insertList]
    split
    · rename_i h
      -- `k` is less than every key of the list.
      have : ∀ g ∈ f :: l, g.1 ≠ k := by
        intro g hg
        rcases List.mem_cons.mp hg with rfl | hg
        · exact h.ne'
        · exact (h.trans (hf g hg)).ne'
      simp only [List.mem_cons]
      constructor
      · rintro (h | h)
        · exact .inl h
        · exact .inr ⟨h, this e (List.mem_cons.mpr h)⟩
      · rintro (h | h)
        · exact .inl h
        · exact .inr h.1
    · split
      · rename_i h
        have : ∀ g ∈ l, g.1 ≠ k := fun g hg => h ▸ (hf g hg).ne'
        simp only [List.mem_cons]
        constructor
        · rintro (h | h)
          · exact .inl h
          · exact .inr ⟨.inr h, this e h⟩
        · rintro (h' | ⟨rfl | h', hk⟩)
          · exact .inl h'
          · exact absurd h.symm hk
          · exact .inr h'
      · rename_i h
        simp only [List.mem_cons, ih hl]
        constructor
        · rintro (rfl | h' | ⟨h', hk⟩)
          · exact .inr ⟨.inl rfl, fun e => h e.symm⟩
          · exact .inl h'
          · exact .inr ⟨.inr h', hk⟩
        · rintro (h' | ⟨rfl | h', hk⟩)
          · exact .inr (.inl h')
          · exact .inl rfl
          · exact .inr (.inr ⟨h', hk⟩)

theorem sorted_insertList {k : κ} {v : ν} {l : List (κ × ν)} (hs : l.Pairwise fun a b => a.1 < b.1) :
    (insertList k v l).Pairwise fun a b => a.1 < b.1 := by
  induction l with
  | nil => simp [insertList]
  | cons f l ih =>
    obtain ⟨hf, hl⟩ := List.pairwise_cons.mp hs
    simp only [insertList]
    split
    · rename_i h
      refine List.pairwise_cons.mpr ⟨fun g hg => ?_, hs⟩
      rcases List.mem_cons.mp hg with rfl | hg
      · exact h
      · exact h.trans (hf g hg)
    · split
      · rename_i h
        exact List.pairwise_cons.mpr ⟨fun g hg => h ▸ hf g hg, hl⟩
      · rename_i h₁ h₂
        refine List.pairwise_cons.mpr ⟨fun g hg => ?_, ih hl⟩
        rcases (mem_insertList hl).mp hg with rfl | ⟨hg, -⟩
        · exact lt_of_le_of_ne (not_lt.mp h₁) fun e => h₂ e.symm
        · exact hf g hg

/-- `BTreeMap::insert`. -/
def insert (m : BTreeMap κ ν) (k : κ) (v : ν) : BTreeMap κ ν := ⟨insertList k v m.entries, sorted_insertList m.sorted⟩

/-- `BTreeMap::remove`. -/
def erase (m : BTreeMap κ ν) (k : κ) : BTreeMap κ ν := ⟨m.entries.filter fun e => e.1 ≠ k, m.sorted.filter _⟩

/-- `map.keys().next()`. -/
def firstKey? (m : BTreeMap κ ν) : Option κ := m.entries.head?.map (·.1)

/-- `BTreeMap::pop_first`, with the map it leaves. -/
def popFirst? (m : BTreeMap κ ν) : Option ((κ × ν) × BTreeMap κ ν) :=
  match m with
  | ⟨[], _⟩ => none
  | ⟨e :: l, hs⟩ => some (e, ⟨l, hs.of_cons⟩)

theorem sorted_filterMap (f : ν → Option ν) {l : List (κ × ν)} (hs : l.Pairwise fun a b => a.1 < b.1) :
    (l.filterMap fun e => (f e.2).map (e.1, ·)).Pairwise fun a b => a.1 < b.1 := by
  refine List.Pairwise.filterMap _ (fun a b h c hc d hd => ?_) hs
  simp only [Option.map_eq_some_iff] at hc hd
  obtain ⟨_, _, rfl⟩ := hc
  obtain ⟨_, _, rfl⟩ := hd
  exact h

/-- Every value changed by `f` in place, and the entries removed for which it gives none. -/
def filterMapValues (m : BTreeMap κ ν) (f : ν → Option ν) : BTreeMap κ ν :=
  ⟨m.entries.filterMap fun e => (f e.2).map (e.1, ·), sorted_filterMap f m.sorted⟩

variable {m : BTreeMap κ ν} {k k' : κ} {v v' : ν}

/-- A key has one entry. -/
theorem eq_of_mem (h : (k, v) ∈ m.entries) (h' : (k, v') ∈ m.entries) : v = v' := by
  have hs := m.sorted
  generalize m.entries = l at h h' hs
  induction l with
  | nil => cases h
  | cons e l ih =>
    obtain ⟨he, hl⟩ := List.pairwise_cons.mp hs
    rcases List.mem_cons.mp h with rfl | h₁
    · rcases List.mem_cons.mp h' with h₂ | h₂
      · exact (Prod.mk.inj h₂).2.symm
      · exact absurd rfl (he _ h₂).ne
    · rcases List.mem_cons.mp h' with rfl | h₂
      · exact absurd rfl (he _ h₁).ne
      · exact ih h₁ h₂ hl

theorem get?_eq_some : m.get? k = some v ↔ (k, v) ∈ m.entries := by
  simp only [get?, Option.map_eq_some_iff]
  constructor
  · rintro ⟨e, h, rfl⟩
    have hk : e.1 = k := by simpa using List.find?_some h
    exact hk ▸ List.mem_of_find?_eq_some h
  · intro h
    cases hf : m.entries.find? fun e => e.1 = k with
    | none =>
      have := List.find?_eq_none.mp hf _ h
      simp at this
    | some e =>
      have hk : e.1 = k := by simpa using List.find?_some hf
      have he : (k, e.2) ∈ m.entries := hk ▸ List.mem_of_find?_eq_some hf
      exact ⟨e, rfl, eq_of_mem he h⟩

theorem get?_eq_none : m.get? k = none ↔ ∀ v, (k, v) ∉ m.entries := by
  rw [Option.eq_none_iff_forall_ne_some]
  exact forall_congr' fun v => not_congr get?_eq_some

@[simp] theorem mem_insert {e : κ × ν} : e ∈ (m.insert k v).entries ↔ e = (k, v) ∨ e ∈ m.entries ∧ e.1 ≠ k :=
  mem_insertList m.sorted

@[simp] theorem mem_erase {e : κ × ν} : e ∈ (m.erase k).entries ↔ e ∈ m.entries ∧ e.1 ≠ k := by
  simp [erase]

theorem get?_congr {m' : BTreeMap κ ν} (h : ∀ v, (k, v) ∈ m'.entries ↔ (k, v) ∈ m.entries) :
    m'.get? k = m.get? k :=
  Option.ext fun v => get?_eq_some.trans ((h v).trans get?_eq_some.symm)

@[simp] theorem get?_insert_self : (m.insert k v).get? k = some v :=
  get?_eq_some.mpr (mem_insert.mpr (.inl rfl))

theorem get?_insert_of_ne (h : k' ≠ k) : (m.insert k v).get? k' = m.get? k' :=
  get?_congr fun v' => by simp [h]

@[simp] theorem get?_erase_self : (m.erase k).get? k = none :=
  get?_eq_none.mpr fun _ h => (mem_erase.mp h).2 rfl

theorem get?_erase_of_ne (h : k' ≠ k) : (m.erase k).get? k' = m.get? k' :=
  get?_congr fun v' => by simp [h]

theorem len_erase_lt (h : m.get? k = some v) : (m.erase k).len < m.len :=
  List.length_filter_lt_length_iff_exists.mpr ⟨(k, v), get?_eq_some.mp h, by simp⟩

theorem len_eq_zero : m.len = 0 ↔ ∀ k, m.get? k = none := by
  rw [len, List.length_eq_zero_iff, List.eq_nil_iff_forall_not_mem]
  exact ⟨fun h k => get?_eq_none.mpr fun v => h (k, v), fun h e => get?_eq_none.mp (h e.1) e.2⟩

/-- A map has as many entries as keys. -/
theorem len_eq_length {keys : List κ} (hnodup : keys.Nodup)
    (h : ∀ k, (m.get? k).isSome ↔ k ∈ keys) : m.len = keys.length := by
  have hkeys : (m.entries.map (·.1)).Perm keys := by
    refine (List.perm_ext_iff_of_nodup ?_ hnodup).mpr fun k => ?_
    · exact (List.pairwise_map.mpr m.sorted).imp ne_of_lt
    · rw [← h, Option.isSome_iff_exists, List.mem_map]
      constructor
      · rintro ⟨⟨_, v⟩, he, rfl⟩
        exact ⟨v, get?_eq_some.mpr he⟩
      · rintro ⟨v, hv⟩
        exact ⟨(k, v), get?_eq_some.mp hv, rfl⟩
  rw [len, ← hkeys.length_eq, List.length_map]

/-- What the keys from `i` on have, as far as they follow one another, but not more than `n` of them. -/
def consecutive : Nat → BTreeMap Nat ν → Nat → List ν
  | 0, _, _ => []
  | n + 1, m, i =>
    match m.get? i with
    | none => []
    | some v => v :: consecutive n (m.erase i) (i + 1)

theorem mem_filterMapValues {f : ν → Option ν} :
    (k, v) ∈ (m.filterMapValues f).entries ↔ ∃ u, (k, u) ∈ m.entries ∧ f u = some v := by
  simp only [filterMapValues, List.mem_filterMap, Option.map_eq_some_iff, Prod.mk.injEq]
  constructor
  · rintro ⟨e, he, u, hu, rfl, rfl⟩
    exact ⟨e.2, he, hu⟩
  · rintro ⟨u, hu, h⟩
    exact ⟨(k, u), hu, v, h, rfl, rfl⟩

/-- The first key is the least one. -/
theorem firstKey?_eq_some : m.firstKey? = some k ↔ (∃ v, (k, v) ∈ m.entries) ∧ ∀ e ∈ m.entries, k ≤ e.1 := by
  rcases m with ⟨_ | ⟨e, l⟩, hs⟩
  · simp [firstKey?]
  obtain ⟨he, -⟩ := List.pairwise_cons.mp hs
  simp only [firstKey?, List.head?_cons, Option.map_some, Option.some.injEq]
  constructor
  · rintro rfl
    refine ⟨⟨e.2, List.mem_cons_self⟩, fun f hf => ?_⟩
    rcases List.mem_cons.mp hf with rfl | hf
    · exact le_rfl
    · exact (he f hf).le
  · rintro ⟨⟨v, hv⟩, hle⟩
    refine le_antisymm ?_ (hle e List.mem_cons_self)
    rcases List.mem_cons.mp hv with h | h
    · rw [← h]
    · exact (he _ h).le

theorem firstKey?_eq_none : m.firstKey? = none ↔ m.entries = [] := by
  simp [firstKey?]

theorem popFirst?_eq_none : m.popFirst? = none ↔ m.entries = [] := by
  rcases m with ⟨_ | ⟨e, l⟩, hs⟩ <;> simp [popFirst?]

theorem popFirst?_eq_some {e : κ × ν} {m' : BTreeMap κ ν} (h : m.popFirst? = some (e, m')) :
    m.entries = e :: m'.entries := by
  rcases m with ⟨_ | ⟨f, l⟩, hs⟩
  · cases h
  · simp only [popFirst?, Option.some.injEq, Prod.mk.injEq] at h
    obtain ⟨rfl, rfl⟩ := h
    rfl

end BTreeMap

end DesCartes
