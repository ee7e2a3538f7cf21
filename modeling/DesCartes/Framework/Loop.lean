import Mathlib.Data.Nat.Basic

/-!
# Loops that break

A loop performs a step until one says that it is over: a step gives the next state, and whether the
loop goes on. `run` performs as many steps as there is fuel for, and `Ends` says that some fuel is
enough; `times` is a loop that is bounded, and breaks as well.

* `ends_iff`, `Ends.unique`: the first step of a loop, and that there is one end;
* `ends_cut`: a loop that breaks earlier and is taken up again is the loop;
* `times_add`, `ends_times`, `Ends.exists_times`: the same for bounded loops.
-/

namespace DesCartes.Loop

variable {σ : Type*}

/-- The state at the end of the loop; none where the fuel is used up before. -/
def run (step : σ → Bool × σ) : Nat → σ → Option σ
  | 0, _ => none
  | n + 1, s =>
    match step s with
    | (true, s) => run step n s
    | (false, s) => some s

/-- The loop ends in a state. -/
def Ends (step : σ → Bool × σ) (s t : σ) : Prop := ∃ n, run step n s = some t

/-- At most `n` steps. -/
def times (step : σ → Bool × σ) : Nat → σ → σ
  | 0, s => s
  | n + 1, s =>
    match step s with
    | (true, s) => times step n s
    | (false, s) => s

variable {step early late : σ → Bool × σ} {s t u : σ} {m n : Nat}

theorem run_succ :
    run step (n + 1) s = if (step s).1 = true then run step n (step s).2 else some (step s).2 := by
  rw [run]
  rcases step s with ⟨goes, s'⟩
  cases goes <;> rfl

theorem times_succ :
    times step (n + 1) s = if (step s).1 = true then times step n (step s).2 else (step s).2 := by
  rw [times]
  rcases step s with ⟨goes, s'⟩
  cases goes <;> rfl

theorem ends_iff :
    Ends step s t ↔ if (step s).1 = true then Ends step (step s).2 t else (step s).2 = t := by
  constructor
  · rintro ⟨n, h⟩
    cases n with
    | zero => cases h
    | succ n =>
      rw [run_succ] at h
      split
      · rename_i hgoes
        rw [if_pos hgoes] at h
        exact ⟨n, h⟩
      · rename_i hgoes
        rw [if_neg hgoes] at h
        exact Option.some.inj h
  · intro h
    split at h
    · rename_i hgoes
      obtain ⟨n, h⟩ := h
      exact ⟨n + 1, by rw [run_succ, if_pos hgoes, h]⟩
    · rename_i hgoes
      exact ⟨1, by rw [run_succ, if_neg hgoes, h]⟩

theorem ends_go (h : (step s).1 = true) : Ends step s t ↔ Ends step (step s).2 t := by
  rw [ends_iff, if_pos h]

theorem ends_stop (h : (step s).1 = false) : Ends step s t ↔ (step s).2 = t := by
  rw [ends_iff, if_neg (by rw [h]; exact Bool.false_ne_true)]

/-- Induction over the steps of a loop that ends. -/
theorem Ends.rec_steps {P : σ → Prop} (hstop : ∀ s, (step s).1 = false → P s)
    (hgo : ∀ s, (step s).1 = true → P (step s).2 → P s) (h : Ends step s t) : P s := by
  obtain ⟨n, h⟩ := h
  induction n generalizing s with
  | zero => cases h
  | succ n ih =>
    rw [run_succ] at h
    cases hgoes : (step s).1 with
    | false => exact hstop s hgoes
    | true =>
      rw [if_pos hgoes] at h
      exact hgo s hgoes (ih h)

theorem Ends.unique (h : Ends step s t) (h' : Ends step s u) : t = u := by
  have hall : ∀ t u, Ends step s t → Ends step s u → t = u := by
    refine h.rec_steps (P := fun s => ∀ t u, Ends step s t → Ends step s u → t = u)
      (fun s hstop t u h h' => ?_)
      fun s hgo ih t u h h' => ?_
    · exact ((ends_stop hstop).mp h).symm.trans ((ends_stop hstop).mp h')
    · exact ih t u ((ends_go hgo).mp h) ((ends_go hgo).mp h')
  exact hall t u h h'

/-- A loop that breaks earlier: what is left to do after it is what is left of the other loop. -/
theorem ends_cut (hgo : ∀ s, (early s).1 = true → late s = early s)
    (hstop : ∀ s t, (early s).1 = false → (Ends late s t ↔ Ends late (early s).2 t)) :
    Ends late s t ↔ ∃ u, Ends early s u ∧ Ends late u t := by
  constructor
  · intro h
    refine h.rec_steps (P := fun s => Ends late s t → ∃ u, Ends early s u ∧ Ends late u t)
      (fun s hlate h => ?_)
      (fun s hlate ih h => ?_) h
    · have hearly : (early s).1 = false := Bool.eq_false_iff.mpr fun hearly => by
        rw [hgo s hearly, hearly] at hlate
        cases hlate
      exact ⟨(early s).2, (ends_stop hearly).mpr rfl, (hstop s t hearly).mp h⟩
    · cases hearly : (early s).1 with
      | false => exact ⟨(early s).2, (ends_stop hearly).mpr rfl, (hstop s t hearly).mp h⟩
      | true =>
        have hsame := hgo s hearly
        obtain ⟨u, hu, ht⟩ := ih ((ends_go hlate).mp h)
        rw [hsame] at hu
        exact ⟨u, (ends_go hearly).mpr hu, ht⟩
  · rintro ⟨u, hu, ht⟩
    refine hu.rec_steps (P := fun s => Ends early s u → Ends late s t) (fun s hearly hu => ?_)
      (fun s hearly ih hu => ?_) hu
    · rw [hstop s t hearly, (ends_stop hearly).mp hu]
      exact ht
    · have hsame := hgo s hearly
      rw [ends_go (by rw [hsame]; exact hearly), hsame]
      exact ih ((ends_go hearly).mp hu)

/-! ## Bounded loops -/

theorem times_go (h : (step s).1 = true) : times step (n + 1) s = times step n (step s).2 := by
  rw [times_succ, if_pos h]

theorem times_stop (h : (step s).1 = false) : times step (n + 1) s = (step s).2 := by
  rw [times_succ, if_neg (by rw [h]; exact Bool.false_ne_true)]

/-- Where a step that ends the loop has nothing left to do. -/
theorem times_of_stop (hstop : ∀ s, (step s).1 = false → step (step s).2 = (false, (step s).2))
    (h : (step s).1 = false) : times step n (step s).2 = (step s).2 := by
  have hagain := hstop s h
  cases n with
  | zero => rfl
  | succ n => rw [times_stop (by rw [hagain]), hagain]

theorem times_add (hstop : ∀ s, (step s).1 = false → step (step s).2 = (false, (step s).2))
    (m n : Nat) (s : σ) :
    times step (m + n) s = times step n (times step m s) := by
  induction m generalizing s with
  | zero => rw [Nat.zero_add, times]
  | succ m ih =>
    rw [Nat.succ_add]
    cases hgoes : (step s).1 with
    | true => rw [times_go hgoes, times_go hgoes, ih]
    | false => rw [times_stop hgoes, times_stop hgoes, times_of_stop hstop hgoes]

/-- The loop goes on after a bounded one. -/
theorem ends_times (hstop : ∀ s, (step s).1 = false → step (step s).2 = (false, (step s).2)) (n : Nat) :
    Ends step s t ↔ Ends step (times step n s) t := by
  induction n generalizing s with
  | zero => rw [times]
  | succ n ih =>
    cases hgoes : (step s).1 with
    | true => rw [times_go hgoes, ends_go hgoes, ih]
    | false =>
      have hagain := hstop s hgoes
      rw [times_stop hgoes, ends_stop hgoes, ends_stop (by rw [hagain]), hagain]

/-- A loop whose steps are those of another one, unless it breaks without a step, is a bounded one. -/
theorem Ends.exists_times (hgo : ∀ s, (early s).1 = true → late s = early s)
    (hstop : ∀ s, (early s).1 = false → (early s).2 = s ∨ late s = early s) (h : Ends early s t) :
    ∃ n, t = times late n s := by
  refine h.rec_steps (P := fun s => Ends early s t → ∃ n, t = times late n s) (fun s hearly h => ?_)
    (fun s hearly ih h => ?_) h
  · have ht := (ends_stop hearly).mp h
    rcases hstop s hearly with hs | hs
    · exact ⟨0, ht.symm.trans hs⟩
    · exact ⟨1, by rw [times_stop (by rw [hs]; exact hearly), hs]; exact ht.symm⟩
  · obtain ⟨n, hn⟩ := ih ((ends_go hearly).mp h)
    have hsame := hgo s hearly
    exact ⟨n + 1, by rw [times_go (by rw [hsame]; exact hearly), hsame]; exact hn⟩

end DesCartes.Loop
