import DesCartes.Framework.Machine
import Mathlib.Algebra.GroupWithZero.Nat

/-!
# Work that is paid for

A machine whose operations each bring something in (`cost`) and whose answers each say how much was done
(`work`). `P s n d` is that in the state `s`, of which `d` has been done so far, no more than `n` is left
to do.

* `run_paid`: when nothing is done that was not brought in, and an operation panics only where more than
  `limit` has been brought in, no operation of a run panics, and what was done and what is left is what
  was there and what was brought in;
* `run_exhausted`: operations that bring nothing in, and find the machine at rest or do something, leave
  it at rest when there are enough of them.
-/

namespace DesCartes.Machine

variable {σ α ω : Type*} {step : σ → α → Option (σ × ω)} {cost : α → Nat} {work : ω → Nat}
  {P : σ → Nat → Nat → Prop} {C : α → Prop} {s t : σ} {l : List α} {os : List ω} {n d : Nat}

/-- A run of some operations, and of others after them. -/
theorem run_append {l' : List α} : run step s (l ++ l') = some (t, os) ↔
    ∃ u os₁ os₂, run step s l = some (u, os₁) ∧ run step u l' = some (t, os₂) ∧ os = os₁ ++ os₂ := by
  induction l generalizing s os with
  | nil =>
    constructor
    · exact fun h => ⟨s, [], os, rfl, h, rfl⟩
    · rintro ⟨u, os₁, os₂, h₁, h₂, rfl⟩
      obtain ⟨rfl, rfl⟩ := run_nil.mp h₁
      exact h₂
  | cons a l ih =>
    rw [List.cons_append, run_cons]
    constructor
    · rintro ⟨v, o, os', ha, hrun, rfl⟩
      obtain ⟨u, os₁, os₂, h₁, h₂, rfl⟩ := ih.mp hrun
      exact ⟨u, o :: os₁, os₂, run_cons.mpr ⟨v, o, os₁, ha, h₁, rfl⟩, h₂, rfl⟩
    · rintro ⟨u, os₁, os₂, h₁, h₂, rfl⟩
      obtain ⟨v, o, os', ha, hrun, rfl⟩ := run_cons.mp h₁
      exact ⟨v, o, os' ++ os₂, ha, ih.mpr ⟨u, os', os₂, hrun, h₂, rfl⟩, rfl⟩

theorem run_paid {limit : Nat}
    (hstep : ∀ s a n d, P s n d → C a → n + d + cost a ≤ limit → ∃ u o m, step s a = some (u, o) ∧
      P u m (d + work o) ∧ m + work o = n + cost a)
    (hl : ∀ a ∈ l, C a) (hs : P s n d) (hlimit : n + d + (l.map cost).sum ≤ limit) :
    ∃ t os m, run step s l = some (t, os) ∧ P t m (d + (os.map work).sum) ∧
      m + (os.map work).sum = n + (l.map cost).sum := by
  induction l generalizing s n d with
  | nil => exact ⟨s, [], n, rfl, hs, rfl⟩
  | cons a l ih =>
    rw [List.map_cons, List.sum_cons] at hlimit
    obtain ⟨u, o, m, hu, hP, hm⟩ := hstep s a n d hs (hl a List.mem_cons_self) (by omega)
    obtain ⟨t, os, m', ht, hP', hm'⟩ :=
      ih (fun b hb => hl b (List.mem_cons_of_mem a hb)) hP (by omega)
    refine ⟨t, o :: os, m', run_cons.mpr ⟨u, o, os, hu, ht, rfl⟩, ?_, ?_⟩
    · rwa [List.map_cons, List.sum_cons, ← Nat.add_assoc]
    · rw [List.map_cons, List.sum_cons, List.map_cons, List.sum_cons]
      omega

theorem run_exhausted {Quiet : σ → Prop}
    (hstep : ∀ s a u o n d, P s n d → C a → step s a = some (u, o) →
      Quiet u ∨ ∃ m, P u m (d + work o) ∧ m < n)
    (hquiet : ∀ s a u o, C a → Quiet s → step s a = some (u, o) → Quiet u)
    (hnone : ∀ s d, P s 0 d → Quiet s) (hl : ∀ a ∈ l, C a) (hs : P s n d) (hn : n ≤ l.length)
    (h : run step s l = some (t, os)) : Quiet t := by
  induction l generalizing s n d os with
  | nil =>
    rw [(run_nil.mp h).1]
    rw [List.length_nil, Nat.le_zero] at hn
    exact hnone s d (hn ▸ hs)
  | cons a l ih =>
    obtain ⟨u, o, os', h₁, h₂, -⟩ := run_cons.mp h
    have hrest : ∀ b ∈ l, C b := fun b hb => hl b (List.mem_cons_of_mem a hb)
    rcases hstep s a u o n d hs (hl a List.mem_cons_self) h₁ with hu | ⟨m, hu, hm⟩
    · have hall : Along (fun _ a => C a) step u l := along_of_forall hrest
      exact hall.invariant (fun s a u o hs ha h => hquiet s a u o ha hs h) hu h₂
    · rw [List.length_cons] at hn
      exact ih hrest hu (by omega) h₂

end DesCartes.Machine
