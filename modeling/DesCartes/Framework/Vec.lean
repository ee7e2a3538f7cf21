import Mathlib.Data.List.Destutter
import Mathlib.Data.List.Perm.Basic
import Mathlib.Data.List.Rotate
import Mathlib.Data.List.Sort

/-!
# Vectors

What the programs use of `std::vec::Vec` beyond lists: `swap_remove`, which takes an entry out
and moves the last one into its place. `swapRemove_perm` says that nothing else is lost;
`swapRemove_zero` says what is left when it is the first entry that goes. A vector that is emptied in
this way from the front is read in the order `swapOrder`, which is its own order only when it is short
(`filter_swapOrder_eq_iff`). `sortDedup` is the vector after `sort` and `dedup`; `sortBy` is the vector
after `sort_by`, which depends only on what is in it (`sortBy_eq_of_perm`). `idxOf?_getElem` says what
`position` finds among entries that are distinct. `turns` is what a round robin gets: in as many turns
as there are entries, each of them once (`turns_length`).
-/

namespace DesCartes.Vec

variable {α : Type*}

/-- What `Vec::swap_remove(i)` leaves of `l`. -/
def swapRemove (l : List α) (i : Nat) : List α :=
  match l.getLast? with
  | none => l
  | some z => (l.set i z).dropLast

theorem swapRemove_concat (l : List α) (z : α) (i : Nat) :
    swapRemove (l ++ [z]) i = l.set i z := by
  simp only [swapRemove, List.getLast?_append, List.getLast?_singleton, Option.some_or]
  by_cases h : i < l.length
  · rw [List.set_append_left _ _ h, List.dropLast_concat]
  · rw [List.set_append_right _ _ (by omega), List.set_eq_of_length_le (l := l) (by omega)]
    cases i - l.length <;> simp

/-- Taking the first entry out of `x :: l` leaves the rest, its last entry moved to the front. -/
theorem swapRemove_zero (x : α) (l : List α) :
    swapRemove (x :: l) 0 = l.getLast?.toList ++ l.dropLast := by
  rcases List.eq_nil_or_concat l with rfl | ⟨l, z, rfl⟩
  · rfl
  · rw [List.concat_eq_append, ← List.cons_append, swapRemove_concat]
    simp

theorem length_swapRemove {l : List α} (h : l ≠ []) (i : Nat) : (swapRemove l i).length + 1 = l.length := by
  obtain ⟨l, z, rfl⟩ := (List.eq_nil_or_concat l).resolve_left h
  rw [List.concat_eq_append, swapRemove_concat]
  simp

theorem swapRemove_perm {l : List α} {i : Nat} {x : α} (h : l[i]? = some x) :
    (x :: swapRemove l i).Perm l := by
  rcases List.eq_nil_or_concat l with rfl | ⟨l, z, rfl⟩
  · simp at h
  rw [List.concat_eq_append] at h ⊢
  rw [swapRemove_concat]
  by_cases hi : i < l.length
  · rw [List.getElem?_append_left hi, List.getElem?_eq_getElem hi, Option.some.injEq] at h
    subst h
    rw [List.set_eq_take_append_cons_drop, if_pos hi]
    -- `l[i]` and `z` change places around the entries before and after `i`.
    have e : l.take i ++ l[i] :: l.drop (i + 1) = l := by rw [List.getElem_cons_drop, List.take_append_drop]
    refine (List.perm_middle.cons _).trans ((List.Perm.swap _ _ _).trans ?_)
    refine (List.perm_middle.symm.cons _).trans ?_
    rw [e]
    exact (List.perm_append_singleton _ _).symm
  · rw [List.set_eq_of_length_le (by omega)]
    rw [List.getElem?_append_right (by omega)] at h
    have hi' : i - l.length = 0 := by
      by_contra hne
      rw [List.getElem?_eq_none (by simp; omega)] at h
      cases h
    rw [hi'] at h
    simp only [List.getElem?_cons_zero, Option.some.injEq] at h
    subst h
    exact (List.perm_append_singleton _ _).symm

/-- The order in which a list is emptied by taking its first entry and moving the last one into its
place. -/
def swapOrder : List α → List α
  | [] => []
  | x :: l => x :: l.reverse

theorem swapOrder_swapRemove (x : α) (l : List α) :
    swapOrder (x :: l) = x :: swapOrder (swapRemove (x :: l) 0) := by
  rw [swapRemove_zero]
  rcases List.eq_nil_or_concat l with rfl | ⟨m, z, rfl⟩
  · rfl
  · simp [swapOrder]

@[simp] theorem mem_swapOrder {l : List α} {y : α} : y ∈ swapOrder l ↔ y ∈ l := by
  cases l <;> simp [swapOrder]

/-- A list without repetitions is its own reverse only when it is short. -/
theorem reverse_eq_self_iff {l : List α} (hn : l.Nodup) : l.reverse = l ↔ l.length ≤ 1 := by
  rcases l with _ | ⟨a, _ | ⟨b, l⟩⟩
  · simp
  · simp
  · refine ⟨fun h => ?_, fun h => by simp at h⟩
    have hl : (b :: l).getLast? = some a := by
      have := congrArg List.head? h
      rwa [List.head?_reverse, List.getLast?_cons_cons, List.head?_cons] at this
    exact absurd (List.mem_of_getLast? hl) (List.nodup_cons.mp hn).1

/-- The entries with `p` are read in their order exactly when at most one of them is behind the first
entry. -/
theorem filter_swapOrder_eq_iff {l : List α} (hn : l.Nodup) (p : α → Bool) :
    (swapOrder l).filter p = l.filter p ↔ (l.tail.filter p).length ≤ 1 := by
  cases l with
  | nil => simp [swapOrder]
  | cons x l =>
    rw [List.tail_cons, ← reverse_eq_self_iff ((List.nodup_cons.mp hn).2.filter p), ← List.filter_reverse]
    simp only [swapOrder, List.filter_cons]
    split
    · rw [List.cons.injEq, and_iff_right rfl]
    · rfl

/-- The vector after `sort_unstable` and `dedup`. -/
def sortDedup [LinearOrder α] (l : List α) : List α := (l.insertionSort (· ≤ ·)).destutter (· ≠ ·)

@[simp] theorem sortDedup_sortDedup [LinearOrder α] (l : List α) : sortDedup (sortDedup l) = sortDedup l := by
  have hsorted : (sortDedup l).Pairwise (· ≤ ·) := (List.pairwise_insertionSort (· ≤ ·) l).sublist
    (List.destutter_sublist ..)
  rw [sortDedup, hsorted.insertionSort_eq, sortDedup, List.destutter_idem]

theorem sortDedup_of_nodup [LinearOrder α] {l : List α} (hl : l.Nodup) :
    sortDedup l = l.insertionSort (· ≤ ·) := by
  have hn : (l.insertionSort (· ≤ ·)).Nodup := (List.perm_insertionSort (· ≤ ·) l).nodup_iff.mpr hl
  exact List.destutter_of_isChain _ _ hn.isChain

theorem mem_sortDedup [LinearOrder α] {l : List α} (hl : l.Nodup) {a : α} : a ∈ sortDedup l ↔ a ∈ l := by
  rw [sortDedup_of_nodup hl, List.mem_insertionSort]

/-- The least entry comes first. -/
theorem exists_head?_sortDedup [LinearOrder α] {l : List α} (hl : l.Nodup) (hne : l ≠ []) :
    ∃ a ∈ l, (∀ b ∈ l, a ≤ b) ∧ (sortDedup l).head? = some a := by
  have hsorted := List.pairwise_insertionSort (· ≤ ·) l
  have hin : ∀ b, b ∈ l.insertionSort (· ≤ ·) ↔ b ∈ l := fun b => List.mem_insertionSort _
  rw [sortDedup_of_nodup hl]
  cases hs : l.insertionSort (· ≤ ·) with
  | nil => exact absurd ((List.perm_insertionSort (· ≤ ·) l).symm.trans (.of_eq hs)).eq_nil hne
  | cons a rest =>
    rw [hs] at hsorted hin
    refine ⟨a, (hin a).mp List.mem_cons_self, fun b hb => ?_, rfl⟩
    rcases List.mem_cons.mp ((hin b).mpr hb) with rfl | hb
    · exact le_rfl
    · exact (List.pairwise_cons.mp hsorted).1 b hb

theorem head?_sortDedup [LinearOrder α] {l : List α} (hl : l.Nodup) {a : α} (ha : a ∈ l)
    (hle : ∀ b ∈ l, a ≤ b) :
    (sortDedup l).head? = some a := by
  obtain ⟨b, hb, hmin, hhead⟩ := exists_head?_sortDedup hl (List.ne_nil_of_mem ha)
  rw [hhead, le_antisymm (hmin a ha) (hle b hb)]

/-- The vector after `sort_by`. -/
def sortBy (cmp : α → α → Ordering) (l : List α) : List α := l.insertionSort fun a b => (cmp a b).isLE = true

theorem sortBy_perm (cmp : α → α → Ordering) (l : List α) : (sortBy cmp l).Perm l :=
  List.perm_insertionSort ..

/-- What is equal for the comparison is the same, so nothing is left of the order before. -/
theorem sortBy_eq_of_perm {cmp : α → α → Ordering} [Std.TransCmp cmp] [Std.LawfulEqCmp cmp]
    {l₁ l₂ : List α} (h : l₁.Perm l₂) :
    sortBy cmp l₁ = sortBy cmp l₂ := by
  have : IsTrans α fun a b => (cmp a b).isLE = true := ⟨fun _ _ _ => Std.TransCmp.isLE_trans⟩
  have : Std.Total fun a b => (cmp a b).isLE = true := by
    refine ⟨fun a b => (em _).imp_right fun h => Std.OrientedCmp.isGE_iff_isLE.mp ?_⟩
    cases hc : cmp a b with
    | lt => exact absurd (by rw [hc]; rfl) h
    | eq => rfl
    | gt => rfl
  have : Std.Antisymm fun a b => (cmp a b).isLE = true :=
    ⟨fun _ _ hab hba => Std.LawfulEqCmp.eq_of_compare (Std.OrientedCmp.isLE_antisymm hab hba)⟩
  exact ((sortBy_perm cmp l₁).trans (h.trans (sortBy_perm cmp l₂).symm)).eq_of_pairwise'
    (List.pairwise_insertionSort _ _)
    (List.pairwise_insertionSort _ _)

/-- `position` of one of several distinct entries. -/
theorem idxOf?_getElem [DecidableEq α] {l : List α} (hl : l.Nodup) {i : Nat} (hi : i < l.length) :
    l.idxOf? l[i] = some i := by
  refine List.idxOf?_eq_some_iff.mpr ⟨hi, rfl, fun j hj e => ?_⟩
  exact hj.ne (hl.getElem_inj_iff.mp e)

/-- What `n` turns of a round robin get when its counter is at `c`. -/
def turns (l : List α) : Nat → Nat → List α
  | _, 0 => []
  | c, n + 1 => l[c % l.length]?.toList ++ turns l ((c + 1) % l.length) n

theorem getElem?_turns (l : List α) {n : Nat} (hl : l ≠ []) (c : Nat) {k : Nat} (hk : k < n) :
    (turns l c n)[k]? = l[(c + k) % l.length]? := by
  have hlt : c % l.length < l.length := Nat.mod_lt _ (List.length_pos_of_ne_nil hl)
  induction n generalizing c k with
  | zero => omega
  | succ n ih =>
    rw [turns, List.getElem?_eq_getElem hlt, Option.toList_some, List.singleton_append]
    cases k with
    | zero => rw [List.getElem?_cons_zero, Nat.add_zero, List.getElem?_eq_getElem hlt]
    | succ k =>
      rw [List.getElem?_cons_succ, ih _ (by omega) (Nat.mod_lt _ (List.length_pos_of_ne_nil hl)),
        Nat.mod_add_mod,
        Nat.add_assoc, Nat.add_comm 1 k]

theorem length_turns (l : List α) (hl : l ≠ []) (c n : Nat) : (turns l c n).length = n := by
  induction n generalizing c with
  | zero => rfl
  | succ n ih =>
    rw [turns, List.getElem?_eq_getElem (Nat.mod_lt _ (List.length_pos_of_ne_nil hl)), Option.toList_some,
      List.singleton_append, List.length_cons, ih]

/-- As many turns as there are entries get each of them once. -/
theorem turns_length (l : List α) (c : Nat) : turns l c l.length = l.rotate c := by
  rcases eq_or_ne l [] with rfl | hl
  · rw [List.rotate_nil]
    rfl
  · refine List.ext_getElem? fun k => ?_
    by_cases hk : k < l.length
    · rw [getElem?_turns l hl c hk, List.getElem?_rotate hk, Nat.add_comm c k]
    · rw [List.getElem?_eq_none (by rw [length_turns l hl]; omega),
        List.getElem?_eq_none (by rw [List.length_rotate]; omega)]

end DesCartes.Vec
