import Mathlib.Data.List.Forall2

/-!
# Cursors

A cursor is given one item after the other and compares each with the next entry of a list. It stops
for good at the first item that does not conform to its entry, or that has none. Nothing is compared
with the entries that are left.

* `Cursor.ok_foldl`: the cursor has not stopped when each of the items conforms to the entry in its place;
* `Cursor.forall₂_answered`: where the answers agree with the entries as far as these were compared,
  they agree with all of them when there were as many items as entries.
-/

namespace DesCartes

variable {σ ι δ ω : Type*}

/-- The answers to the items, each from the state that the items before it lead to. -/
def answered (step : σ → ι → σ) (answer : σ → ι → ω) : σ → List ι → List ω
  | _, [] => []
  | s, i :: items => answer s i :: answered step answer (step s i) items

/-- A machine that compares what it is given with the entries that are left, and stops where one is
not as expected. -/
structure Cursor (step : σ → ι → σ) (ok : σ → Prop) (rest : σ → List δ) (Conforms : δ → ι → Prop) : Prop where
  stopped : ∀ s i, ¬ ok s → ¬ ok (step s i)
  out : ∀ s i, rest s = [] → ¬ ok (step s i)
  next : ∀ s i d ds, ok s → rest s = d :: ds → (ok (step s i) ↔ Conforms d i) ∧ (ok (step s i) → rest (step s i) = ds)

namespace Cursor

variable {step : σ → ι → σ} {ok : σ → Prop} {rest : σ → List δ} {Conforms : δ → ι → Prop} {s : σ} {items : List ι}

theorem ok_of_foldl (h : Cursor step ok rest Conforms) (hok : ok (items.foldl step s)) : ok s := by
  induction items generalizing s with
  | nil => exact hok
  | cons i items ih => exact not_imp_not.mp (h.stopped s i) (ih hok)

/-- An item that did not stop the cursor has an entry. -/
theorem exists_entry (h : Cursor step ok rest Conforms) {i : ι} (hok : ok (step s i)) :
    ∃ d, rest s = d :: rest (step s i) ∧ Conforms d i := by
  cases hr : rest s with
  | nil => exact absurd hok (h.out s i hr)
  | cons d ds =>
    obtain ⟨h₁, h₂⟩ := h.next s i d ds (not_imp_not.mp (h.stopped s i) hok) hr
    rw [h₂ hok]
    exact ⟨d, rfl, h₁.mp hok⟩

/-- The cursor has not stopped when each of the items conforms to the entry in its place. -/
theorem ok_foldl (h : Cursor step ok rest Conforms) (hs : ok s) :
    ok (items.foldl step s) ↔ List.Forall₂ Conforms ((rest s).take items.length) items := by
  induction items generalizing s with
  | nil =>
    simp only [List.foldl_nil, List.length_nil, List.take_zero]
    exact iff_of_true hs .nil
  | cons i items ih =>
    rw [List.foldl_cons]
    constructor
    · intro hok
      have hi := h.ok_of_foldl hok
      obtain ⟨d, hr, hd⟩ := h.exists_entry hi
      rw [hr, List.length_cons, List.take_succ_cons]
      exact .cons hd ((ih hi).mp hok)
    · intro hall
      cases hr : rest s with
      | nil =>
        rw [hr, List.take_nil] at hall
        cases hall
      | cons d ds =>
        rw [hr, List.length_cons, List.take_succ_cons, List.forall₂_cons] at hall
        obtain ⟨h₁, h₂⟩ := h.next s i d ds hs hr
        have hi := h₁.mpr hall.1
        exact (ih hi).mpr (by rw [h₂ hi]; exact hall.2)

/-- What the answers say of all entries, for a cursor that has not stopped: as many items as
entries, and what is missing for the answer to agree with an entry to which the item conforms. -/
theorem forall₂_answered (h : Cursor step ok rest Conforms) {answer : σ → ι → ω}
    {Agrees : δ → ω → Prop} {E : δ → ι → Prop}
    (hanswer : ∀ s i d ds, ok s → rest s = d :: ds → Conforms d i → (Agrees d (answer s i) ↔ E d i))
    (hok : ok (items.foldl step s)) : List.Forall₂ Agrees (rest s) (answered step answer s items) ↔
      items.length = (rest s).length ∧ ∀ e ∈ (rest s).zip items, E e.1 e.2 := by
  induction items generalizing s with
  | nil => simp [answered, List.forall₂_nil_right_iff, eq_comm]
  | cons i items ih =>
    have hi := h.ok_of_foldl (s := step s i) hok
    obtain ⟨d, hr, hd⟩ := h.exists_entry hi
    have hs : ok s := not_imp_not.mp (h.stopped s i) hi
    rw [hr, answered, List.forall₂_cons, hanswer s i d _ hs hr hd, ih hok, List.zip_cons_cons,
      List.forall_mem_cons,
      List.length_cons, List.length_cons, Nat.add_right_cancel_iff]
    exact and_left_comm

end Cursor

end DesCartes
