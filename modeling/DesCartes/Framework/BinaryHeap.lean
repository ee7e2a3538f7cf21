import Mathlib.Data.List.Sort

/-!
# Binary heaps

`std::collections::BinaryHeap`, as the priority queue it is documented to be: `pop` removes a
greatest entry for the order of the entries, `peek` reads it, and `push` adds one. What it
promises does not depend on the array behind it, so the entries are kept in the order in
which they would be popped (`sorted`).

* `mem_push`, `push_perm`: what `push` adds, and that it loses nothing;
* `pop_eq_some`, `pop_eq_none`: `pop` takes the head of that order;
* `head_isGE`: every other entry is at most the head;
* `pushAll_perm`: pushing entries one after the other loses nothing either.
-/

namespace DesCartes

universe u

/-- A max-heap: its entries, greatest first. -/
structure BinaryHeap (α : Type u) [Ord α] where
  toList : List α
  sorted : toList.Pairwise fun a b => (compare b a).isLE

namespace BinaryHeap

variable {α : Type u} [Ord α]

/-- The order in which entries are popped: `a` no later than `b`. -/
def Rel (a b : α) : Prop := (compare b a).isLE

instance : DecidableRel (Rel (α := α)) := fun a b => inferInstanceAs (Decidable ((compare b a).isLE = true))

instance [Std.TransOrd α] : IsTrans α Rel := ⟨fun _ _ _ h₁ h₂ => Std.TransOrd.isLE_trans h₂ h₁⟩

instance [Std.TransOrd α] : Std.Total (Rel (α := α)) :=
  ⟨fun a b => by
    by_cases h : (compare b a).isLE
    · exact .inl h
    · exact .inr (by rw [Rel, Std.OrientedCmp.lt_of_not_isLE h]; rfl)⟩

/-- `BinaryHeap::default()`. -/
def empty : BinaryHeap α := ⟨[], .nil⟩

/-- `BinaryHeap::len`. -/
def len (h : BinaryHeap α) : Nat := h.toList.length

/-- `BinaryHeap::push`. -/
def push [Std.TransOrd α] (h : BinaryHeap α) (a : α) : BinaryHeap α :=
  ⟨h.toList.orderedInsert Rel a, List.Pairwise.orderedInsert (r := Rel) a _ h.sorted⟩

/-- `BinaryHeap::peek`. -/
def peek (h : BinaryHeap α) : Option α := h.toList.head?

/-- `BinaryHeap::pop`, with the heap it leaves. -/
def pop (h : BinaryHeap α) : Option (α × BinaryHeap α) :=
  match h with
  | ⟨[], _⟩ => none
  | ⟨a :: l, hs⟩ => some (a, ⟨l, hs.of_cons⟩)

/-- Pushing the entries of a list, first to last. -/
def pushAll [Std.TransOrd α] (h : BinaryHeap α) (l : List α) : BinaryHeap α := l.foldl push h

theorem ext {h₁ h₂ : BinaryHeap α} (e : h₁.toList = h₂.toList) : h₁ = h₂ := by
  cases h₁; cases h₂; cases e; rfl

theorem pop_eq_none {h : BinaryHeap α} : h.pop = none ↔ h.toList = [] := by
  rcases h with ⟨_ | ⟨a, l⟩, hs⟩ <;> simp [pop]

theorem pop_eq_some {h h' : BinaryHeap α} {a : α} : h.pop = some (a, h') ↔ h.toList = a :: h'.toList := by
  rcases h with ⟨_ | ⟨b, l⟩, hs⟩
  · simp [pop]
  · simp only [pop, Option.some.injEq, Prod.mk.injEq, List.cons.injEq]
    exact and_congr_right fun _ => ⟨fun e => by rw [← e], fun e => ext e⟩

/-- Every other entry is at most the head. -/
theorem head_isGE {h : BinaryHeap α} {a b : α} {l : List α} (e : h.toList = a :: l) (hb : b ∈ l) :
    Rel a b := by
  have := h.sorted
  rw [e] at this
  exact List.rel_of_pairwise_cons this hb

section
variable [Std.TransOrd α]

theorem push_perm (h : BinaryHeap α) (a : α) : (h.push a).toList.Perm (a :: h.toList) :=
  List.perm_orderedInsert _ _ _

@[simp] theorem mem_push {h : BinaryHeap α} {a b : α} : b ∈ (h.push a).toList ↔ b = a ∨ b ∈ h.toList :=
  List.mem_orderedInsert _

theorem pushAll_perm (h : BinaryHeap α) (l : List α) : (h.pushAll l).toList.Perm (l ++ h.toList) := by
  induction l generalizing h with
  | nil => exact .refl _
  | cons a l ih => exact (ih (h.push a)).trans (((push_perm h a).append_left l).trans List.perm_middle)

@[simp] theorem mem_pushAll {h : BinaryHeap α} {l : List α} {b : α} :
    b ∈ (h.pushAll l).toList ↔ b ∈ l ∨ b ∈ h.toList := by
  rw [(pushAll_perm h l).mem_iff, List.mem_append]

end

end BinaryHeap

end DesCartes
