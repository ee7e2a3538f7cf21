import Mathlib.Algebra.BigOperators.Group.Finset.Basic
import Mathlib.Algebra.Order.BigOperators.Group.Finset

/-!
# Tables of live objects

The values of a type that a program has created and not yet dropped, each under the handle it got:
a future that is polled and dropped later, a guard, a clone of a handle. Handles are not used again.

`Table.total f` sums `f` over what is alive. It is told from one change at a time (`total_insert`,
`total_set`, `total_erase`), from the one entry where two functions differ (`total_eq_at`), and
compared for two functions (`total_mono`, `total_lt`).

`Table.Named key` says that the live objects are told apart by a name.
-/

namespace DesCartes

/-- `std::task::Poll`. -/
inductive Poll (α : Type) where
  | pending
  | ready (value : α)
deriving DecidableEq

/-- What is alive of the objects that were created, by handle. -/
@[ext]
structure Table (α : Type) where
  get : Nat → Option α
  /-- The handle of the next object. -/
  next : Nat
  get_of_le : ∀ i, next ≤ i → get i = none

namespace Table

variable {α : Type}

def empty : Table α := ⟨fun _ => none, 0, fun _ _ => rfl⟩

/-- A new object; its handle is `t.next`. -/
def insert (t : Table α) (a : α) : Table α where
  get i := if i = t.next then some a else t.get i
  next := t.next + 1
  get_of_le i h := by
    rw [if_neg (by omega)]
    exact t.get_of_le i (by omega)

/-- The object `i`, if it is alive, is now `a`. -/
def set (t : Table α) (i : Nat) (a : α) : Table α where
  get j := if j = i then (t.get i).map fun _ => a else t.get j
  next := t.next
  get_of_le j h := by
    split
    · rename_i e
      rw [t.get_of_le i (e ▸ h), Option.map_none]
    · exact t.get_of_le j h

/-- The object `i` is dropped. -/
def erase (t : Table α) (i : Nat) : Table α where
  get j := if j = i then none else t.get j
  next := t.next
  get_of_le j h := by
    split
    · rfl
    · exact t.get_of_le j h

/-- Every live object changes. -/
def map (t : Table α) (f : α → α) : Table α where
  get i := (t.get i).map f
  next := t.next
  get_of_le i h := by rw [t.get_of_le i h, Option.map_none]

variable {t : Table α} {i j : Nat} {a b c : α}

@[simp] theorem get_empty : (empty : Table α).get i = none := rfl

@[simp] theorem next_insert : (t.insert a).next = t.next + 1 := rfl

@[simp] theorem next_set : (t.set i a).next = t.next := rfl

@[simp] theorem next_erase : (t.erase i).next = t.next := rfl

theorem get_map_eq_some {f : α → α} : (t.map f).get i = some b ↔ ∃ a, t.get i = some a ∧ f a = b :=
  Option.map_eq_some_iff

theorem lt_next (h : t.get i = some a) : i < t.next := by
  by_contra hi
  rw [t.get_of_le i (by omega)] at h
  cases h

theorem get_insert_eq_some : (t.insert a).get i = some b ↔ (i = t.next ∧ b = a) ∨ t.get i = some b := by
  have hn : t.get t.next = none := t.get_of_le _ le_rfl
  simp only [insert]
  split
  · rename_i e
    subst e
    rw [hn]
    simp [eq_comm]
  · rename_i e
    simp [e]

theorem get_set_eq_some (h : t.get i = some a) :
    (t.set i b).get j = some c ↔ (j = i ∧ c = b) ∨ (j ≠ i ∧ t.get j = some c) := by
  simp only [set, h, Option.map_some]
  split <;> rename_i e <;> simp [e, eq_comm]

theorem set_self (h : t.get i = some a) : t.set i a = t := by
  refine Table.ext (funext fun j => ?_) rfl
  simp only [set, h, Option.map_some]
  split
  · rename_i e
    rw [e, h]
  · rfl

theorem get_set_self (h : t.get i = some a) : (t.set i b).get i = some b := by simp [set, h]

theorem set_set : (t.set i a).set i b = t.set i b := by
  refine Table.ext (funext fun j => ?_) rfl
  simp only [set]
  split
  · cases t.get i <;> simp
  · rfl

theorem erase_set : (t.set i a).erase i = t.erase i := by
  refine Table.ext (funext fun j => ?_) rfl
  simp only [set, erase]
  split <;> rfl

theorem get_erase_self : (t.erase i).get i = none := if_pos rfl

theorem get_erase_eq_some : (t.erase i).get j = some b ↔ j ≠ i ∧ t.get j = some b := by
  simp only [erase]
  split <;> rename_i e <;> simp [e]

/-! ## Names -/

/-- No two live objects have the same name. -/
def Named (key : α → Nat) (t : Table α) : Prop :=
  ∀ i j a b, t.get i = some a → t.get j = some b → key a = key b → i = j

theorem named_empty {key : α → Nat} : (empty : Table α).Named key := fun _ _ _ _ h => by cases h

theorem Named.ne {key : α → Nat} (h : t.Named key) (hi : t.get i = some a) (hj : t.get j = some b)
    (hij : j ≠ i) :
    key b ≠ key a := fun e => hij (h j i b a hj hi e)

/-- A new object with a new name. -/
theorem Named.insert {key : α → Nat} (h : t.Named key) (hb : ∀ i a, t.get i = some a → key a ≠ key b) :
    (t.insert b).Named key := by
  intro j k c d hj hk e
  rcases get_insert_eq_some.mp hj with ⟨rfl, rfl⟩ | hj'
  · rcases get_insert_eq_some.mp hk with ⟨rfl, -⟩ | hk'
    · rfl
    · exact absurd e.symm (hb k d hk')
  · rcases get_insert_eq_some.mp hk with ⟨rfl, rfl⟩ | hk'
    · exact absurd e (hb j c hj')
    · exact h j k c d hj' hk' e

/-- An object that keeps its name. -/
theorem Named.set {key : α → Nat} (h : t.Named key) (hi : t.get i = some a) (hb : key b = key a) :
    (t.set i b).Named key := by
  intro j k c d hj hk e
  rcases (get_set_eq_some hi).mp hj with ⟨rfl, rfl⟩ | ⟨hji, hj'⟩
  · rcases (get_set_eq_some hi).mp hk with ⟨rfl, -⟩ | ⟨hki, hk'⟩
    · rfl
    · exact absurd (e.symm.trans hb) (h.ne hi hk' hki)
  · rcases (get_set_eq_some hi).mp hk with ⟨rfl, rfl⟩ | ⟨hki, hk'⟩
    · exact absurd (e.trans hb) (h.ne hi hj' hji)
    · exact h j k c d hj' hk' e

/-! ## Totals -/

/-- The sum of `f` over the live objects. -/
def total (f : α → Nat) (t : Table α) : Nat := ∑ i ∈ Finset.range t.next, (t.get i).elim 0 f

variable {f g : α → Nat}

theorem total_eq_add (h : t.get i = some a) :
    t.total f = f a + ∑ j ∈ (Finset.range t.next).erase i, (t.get j).elim 0 f := by
  rw [total, ← Finset.add_sum_erase _ _ (Finset.mem_range.mpr (lt_next h)), h]
  rfl

/-- Where only the object `i` counts differently. -/
theorem total_eq_at (h : t.get i = some a) (hfg : ∀ j b, j ≠ i → t.get j = some b → f b = g b) :
    t.total f + g a = t.total g + f a := by
  have hrest : ∑ j ∈ (Finset.range t.next).erase i, (t.get j).elim 0 f =
      ∑ j ∈ (Finset.range t.next).erase i, (t.get j).elim 0 g := by
    refine Finset.sum_congr rfl fun j hj => ?_
    cases hb : t.get j with
    | none => rfl
    | some b => exact hfg j b (Finset.ne_of_mem_erase hj) hb
  rw [total_eq_add h, total_eq_add h, hrest]
  omega

theorem total_congr (hfg : ∀ j b, t.get j = some b → f b = g b) : t.total f = t.total g := by
  refine Finset.sum_congr rfl fun j _ => ?_
  cases hb : t.get j with
  | none => rfl
  | some b => exact hfg j b hb

theorem total_eq_zero (hf : ∀ j b, t.get j = some b → f b = 0) : t.total f = 0 := by
  refine Finset.sum_eq_zero fun j _ => ?_
  cases hb : t.get j with
  | none => rfl
  | some b => exact hf j b hb

theorem total_mono (hfg : ∀ j b, t.get j = some b → f b ≤ g b) : t.total f ≤ t.total g := by
  refine Finset.sum_le_sum fun j _ => ?_
  cases hb : t.get j with
  | none => exact le_rfl
  | some b => exact hfg j b hb

/-- Where `g` counts more at one object at least. -/
theorem total_lt (hfg : ∀ j b, t.get j = some b → f b ≤ g b) (h : t.get i = some a) (ha : f a < g a) :
    t.total f < t.total g := by
  refine Finset.sum_lt_sum (fun j _ => ?_) ⟨i, Finset.mem_range.mpr (lt_next h), ?_⟩
  · cases hb : t.get j with
    | none => exact le_rfl
    | some b => exact hfg j b hb
  · rw [h]
    exact ha

@[simp] theorem total_empty : (empty : Table α).total f = 0 := rfl

@[simp] theorem total_insert : (t.insert a).total f = t.total f + f a := by
  have hrest : ∀ j ∈ Finset.range t.next, ((t.insert a).get j).elim 0 f = (t.get j).elim 0 f :=
    fun j hj => by
    simp only [insert, if_neg (Finset.mem_range.mp hj).ne]
  rw [total, next_insert, Finset.sum_range_succ, Finset.sum_congr rfl hrest]
  simp [insert, total]

theorem total_set (h : t.get i = some a) : (t.set i b).total f + f a = t.total f + f b := by
  have hb : (t.set i b).get i = some b := get_set_self h
  have hrest : ∀ j ∈ (Finset.range t.next).erase i, ((t.set i b).get j).elim 0 f = (t.get j).elim 0 f :=
    fun j hj => by simp only [set, if_neg (Finset.ne_of_mem_erase hj)]
  rw [total_eq_add h, total_eq_add hb, next_set, Finset.sum_congr rfl hrest]
  omega

theorem total_erase (h : t.get i = some a) : (t.erase i).total f + f a = t.total f := by
  have hrest : ∀ j ∈ (Finset.range t.next).erase i, ((t.erase i).get j).elim 0 f = (t.get j).elim 0 f :=
    fun j hj => by simp only [erase, if_neg (Finset.ne_of_mem_erase hj)]
  rw [total_eq_add h, total, next_erase,
    ← Finset.add_sum_erase _ _ (Finset.mem_range.mpr (lt_next h)), Finset.sum_congr rfl hrest]
  simp only [erase, if_true, Option.elim]
  omega

@[simp] theorem total_map {m : α → α} : (t.map m).total f = t.total fun a => f (m a) := by
  refine Finset.sum_congr rfl fun j _ => ?_
  simp only [map]
  cases t.get j <;> rfl

/-- Where the total is not zero, a live object counts. -/
theorem exists_of_total_ne_zero (h : t.total f ≠ 0) : ∃ i a, t.get i = some a ∧ f a ≠ 0 := by
  obtain ⟨i, -, hi⟩ := Finset.exists_ne_zero_of_sum_ne_zero h
  cases ha : t.get i with
  | none =>
    rw [ha] at hi
    exact absurd rfl hi
  | some a =>
    rw [ha] at hi
    exact ⟨i, a, ha, hi⟩

theorem le_total (h : t.get i = some a) : f a ≤ t.total f := by
  rw [total_eq_add h]
  exact Nat.le_add_right _ _

/-- Two live objects count both. -/
theorem add_le_total (h : t.get i = some a) (h' : t.get j = some b) (hij : j ≠ i) :
    f a + f b ≤ t.total f := by
  rw [← total_erase (f := f) h]
  have : f b ≤ (t.erase i).total f := le_total (get_erase_eq_some.mpr ⟨hij, h'⟩)
  omega

/-- Objects that count at least one each. -/
theorem card_le_total {live : Finset Nat} (h : ∀ i ∈ live, ∃ a, t.get i = some a ∧ 1 ≤ f a) :
    live.card ≤ t.total f := by
  have hsub : live ⊆ Finset.range t.next := fun i hi => by
    obtain ⟨a, ha, -⟩ := h i hi
    exact Finset.mem_range.mpr (lt_next ha)
  calc live.card = ∑ i ∈ live, 1 := by simp
    _ ≤ ∑ i ∈ live, (t.get i).elim 0 f := Finset.sum_le_sum fun i hi => by
      obtain ⟨a, ha, hf⟩ := h i hi
      rw [ha]
      exact hf
    _ ≤ t.total f := Finset.sum_le_sum_of_subset hsub

end Table

end DesCartes
