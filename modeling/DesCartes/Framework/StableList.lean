import Mathlib.Data.List.Perm.Basic
import Mathlib.Order.Lattice

/-!
# Stable priority lists

A list of what is held, in the order in which it came. `takeLeast` takes out the first of the
entries with the least key.

* `takeLeast_split`: what is taken, in terms of the list alone;
* `takeLeast_stamped`: who numbers the entries as they come, and takes what is least by its key and
  then by its number, takes the same.
-/

namespace DesCartes.StableList

variable {α β κ : Type*} [LinearOrder κ] {key : α → κ} {l rest : List α} {a : α}

/-- The first entry with the least key, and the other ones. -/
def takeLeast (key : α → κ) : List α → Option (α × List α)
  | [] => none
  | a :: l =>
    match takeLeast key l with
    | none => some (a, l)
    | some (b, rest) => if key b < key a then some (b, a :: rest) else some (a, l)

theorem takeLeast_eq_none : takeLeast key l = none ↔ l = [] := by
  cases l with
  | nil => exact iff_of_true rfl rfl
  | cons a l =>
    refine iff_of_false (fun h => ?_) (List.cons_ne_nil _ _)
    rw [takeLeast] at h
    split at h
    · cases h
    · split at h <;> cases h

/-- What is taken is less than all that came before it, and at most as great as all that came after it. -/
theorem takeLeast_split (h : takeLeast key l = some (a, rest)) :
    ∃ pre post, l = pre ++ a :: post ∧ rest = pre ++ post ∧
    (∀ x ∈ pre, key a < key x) ∧ ∀ x ∈ post, key a ≤ key x := by
  induction l generalizing a rest with
  | nil => cases h
  | cons b l ih =>
    rw [takeLeast] at h
    split at h
    · rename_i hnone
      cases h
      rw [takeLeast_eq_none.mp hnone]
      exact ⟨[], [], rfl, rfl, fun x hx => absurd hx List.not_mem_nil, fun x hx => absurd hx List.not_mem_nil⟩
    · rename_i c rest' hc
      obtain ⟨pre, post, hl, hrest, hpre, hpost⟩ := ih hc
      split at h <;> rename_i hlt <;> cases h
      · exact ⟨b :: pre, post, congrArg _ hl, congrArg _ hrest, List.forall_mem_cons.mpr ⟨hlt, hpre⟩, hpost⟩
      · refine ⟨[], l, rfl, rfl, fun x hx => absurd hx List.not_mem_nil, fun x hx => ?_⟩
        have hle : key b ≤ key c := not_lt.mp hlt
        rw [hl, List.mem_append, List.mem_cons] at hx
        rcases hx with hx | rfl | hx
        · exact hle.trans (hpre x hx).le
        · exact hle
        · exact hle.trans (hpost x hx)

theorem takeLeast_append {pre post : List α} (hpre : ∀ x ∈ pre, key a < key x)
    (hpost : ∀ x ∈ post, key a ≤ key x) :
    takeLeast key (pre ++ a :: post) = some (a, pre ++ post) := by
  induction pre with
  | nil =>
    rw [List.nil_append, takeLeast]
    cases h : takeLeast key post with
    | none => rfl
    | some p =>
      -- what is least behind `a` is not less than `a`
      obtain ⟨before, behind, rfl, -, -, -⟩ := takeLeast_split h
      exact if_neg (hpost p.1 (List.mem_append_right _ List.mem_cons_self)).not_gt
  | cons b pre ih =>
    rw [List.cons_append, takeLeast, ih fun x hx => hpre x (List.mem_cons_of_mem _ hx)]
    exact if_pos (hpre b List.mem_cons_self)

/-- Entries that are numbered as they come, and the one that is least by its key and then by its number. -/
theorem takeLeast_stamped {item : β → α} {stamp : β → Nat} {entries : List β}
    (hs : entries.Pairwise fun b c => stamp b < stamp c) {b : β} (hb : b ∈ entries)
    (hmin : ∀ c ∈ entries, key (item b) < key (item c) ∨ key (item b) = key (item c) ∧ stamp b ≤ stamp c) :
    ∃ others, entries.Perm (b :: others) ∧ others.Sublist entries ∧
      takeLeast key (entries.map item) = some (item b, others.map item) := by
  obtain ⟨pre, post, rfl⟩ := List.append_of_mem hb
  refine ⟨pre ++ post, List.perm_middle, List.Sublist.append (.refl _) (List.sublist_cons_self _ _), ?_⟩
  rw [List.map_append, List.map_cons, List.map_append]
  refine takeLeast_append (fun x hx => ?_) fun x hx => ?_ <;> obtain ⟨c, hc, rfl⟩ := List.mem_map.mp hx
  · have hlt : stamp c < stamp b := (List.pairwise_append.mp hs).2.2 c hc b List.mem_cons_self
    exact (hmin c (List.mem_append_left _ hc)).resolve_right fun h => absurd h.2 (Nat.not_le.mpr hlt)
  · exact (hmin c (List.mem_append_right _ (List.mem_cons_of_mem _ hc))).elim le_of_lt fun h => h.1.le

end DesCartes.StableList
