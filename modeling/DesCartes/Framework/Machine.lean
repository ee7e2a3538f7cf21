import Mathlib.Data.List.Basic

/-!
# Runs of a machine

A machine is a step function on its states: for each operation the next state and what the
operation answers, or nothing where the program stops with a panic. `run` performs a list of
operations and collects the answers.

* `run_cons`: the first operation of a run, and the ones after it;
* `run_invariant`, `run_history`, `run_answers`: what every step keeps holds after every run, of
  the state, of the state and all the answers so far, and of each answer; `Along.invariant`: after
  the runs whose operations meet a condition; `Along.trace`: of the operations, too; `along_congr`,
  `along_iff`, `along_iff_answers`: when a condition holds along a run;
* `run_isSome`: when no operation of a run panics;
* `Along.run_filter`: what is left of a run when only some of its operations are performed;
* `run_related`: two machines whose steps keep a relation and answer alike answer alike in
  every run.
-/

namespace DesCartes.Machine

variable {σ σ' α ω : Type*}

/-- The state after the operations and their answers; none where one of them panics. -/
def run (step : σ → α → Option (σ × ω)) : σ → List α → Option (σ × List ω)
  | s, [] => some (s, [])
  | s, a :: l => (step s a).bind fun r => (run step r.1 l).map fun q => (q.1, r.2 :: q.2)

variable {step : σ → α → Option (σ × ω)} {s t : σ} {a : α} {l : List α} {os : List ω}

@[simp] theorem run_nil : run step s [] = some (t, os) ↔ t = s ∧ os = [] := by
  simp only [run, Option.some.injEq, Prod.mk.injEq]
  exact ⟨fun h => ⟨h.1.symm, h.2.symm⟩, fun h => ⟨h.1.symm, h.2.symm⟩⟩

theorem run_cons : run step s (a :: l) = some (t, os) ↔
    ∃ u o os', step s a = some (u, o) ∧ run step u l = some (t, os') ∧ os = o :: os' := by
  simp only [run, Option.bind_eq_some_iff, Option.map_eq_some_iff, Prod.exists, Prod.mk.injEq]
  constructor
  · rintro ⟨u, o, hs, t', os', hr, rfl, rfl⟩
    exact ⟨u, o, os', hs, hr, rfl⟩
  · rintro ⟨u, o, os', hs, hr, rfl⟩
    exact ⟨u, o, hs, t, os', hr, rfl, rfl⟩

/-- `C` holds of every operation of the list and the state that it is performed in. -/
def Along (C : σ → α → Prop) (step : σ → α → Option (σ × ω)) : σ → List α → Prop
  | _, [] => True
  | s, a :: l => C s a ∧ ∀ u o, step s a = some (u, o) → Along C step u l

instance decidableAlong {C : σ → α → Prop} [∀ s a, Decidable (C s a)] (step : σ → α → Option (σ × ω)) :
    ∀ (s : σ) (l : List α), Decidable (Along C step s l)
  | _, [] => isTrue trivial
  | s, a :: l =>
    match h : step s a with
    | none => decidable_of_iff (C s a) ⟨fun hc => ⟨hc, fun _ _ hu => nomatch h.symm.trans hu⟩, fun hl => hl.1⟩
    | some (u, o) =>
      have : Decidable (Along C step u l) := decidableAlong step u l
      decidable_of_iff (C s a ∧ Along C step u l)
        ⟨fun hl => ⟨hl.1, fun _ _ hu => by cases h.symm.trans hu; exact hl.2⟩, fun hl => ⟨hl.1, hl.2 u o h⟩⟩

/-- What every step keeps that `C` allows holds after every run along which `C` holds. -/
theorem Along.invariant {P : σ → Prop} {C : σ → α → Prop}
    (hstep : ∀ s a u o, P s → C s a → step s a = some (u, o) → P u) (hC : Along C step s l) (hs : P s)
    (h : run step s l = some (t, os)) : P t := by
  induction l generalizing s os with
  | nil => rw [(run_nil.mp h).1]; exact hs
  | cons a l ih =>
    obtain ⟨u, o, os', h₁, h₂, -⟩ := run_cons.mp h
    exact ih (hC.2 u o h₁) (hstep s a u o hs hC.1 h₁) h₂

theorem along_of_forall {C : α → Prop} (hl : ∀ a ∈ l, C a) : Along (fun _ a => C a) step s l := by
  induction l generalizing s with
  | nil => trivial
  | cons a l ih =>
    exact ⟨hl a List.mem_cons_self, fun u o _ => ih fun b hb => hl b (List.mem_cons_of_mem a hb)⟩

theorem Along.and {C D : σ → α → Prop} (hC : Along C step s l) (hD : Along D step s l) :
    Along (fun s a => C s a ∧ D s a) step s l := by
  induction l generalizing s with
  | nil => trivial
  | cons a l ih => exact ⟨⟨hC.1, hD.1⟩, fun u o h => ih (hC.2 u o h) (hD.2 u o h)⟩

/-- A condition on the operations that can be told from their answers. -/
theorem along_iff_answers {C : σ → α → Prop} {Q : ω → Prop}
    (hCQ : ∀ s a u o, step s a = some (u, o) → (C s a ↔ Q o)) (h : run step s l = some (t, os)) :
    Along C step s l ↔ ∀ o ∈ os, Q o := by
  induction l generalizing s os with
  | nil =>
    rw [(run_nil.mp h).2]
    exact ⟨fun _ o ho => absurd ho List.not_mem_nil, fun _ => trivial⟩
  | cons a l ih =>
    obtain ⟨u, o, os', h₁, h₂, rfl⟩ := run_cons.mp h
    rw [List.forall_mem_cons, ← hCQ s a u o h₁, ← ih h₂]
    refine and_congr_right' ⟨fun hl => hl u o h₁, fun hl u' o' h₁' => ?_⟩
    cases h₁.symm.trans h₁'
    exact hl

/-- Two conditions that say the same of the states that the second one leads to. -/
theorem along_congr {C D : σ → α → Prop} {I : σ → Prop} (hCD : ∀ s a, I s → (C s a ↔ D s a))
    (hI : ∀ s a u o, I s → D s a → step s a = some (u, o) → I u) (hs : I s) :
    Along C step s l ↔ Along D step s l := by
  induction l generalizing s with
  | nil => exact Iff.rfl
  | cons a l ih =>
    refine and_congr_right_iff.mpr ?_ |>.trans (and_congr_left' (hCD s a hs))
    exact fun hc => forall_congr' fun u => forall_congr' fun o => forall_congr' fun hu =>
      ih (hI s a u o hs ((hCD s a hs).mp hc) hu)

/-- Where `C` says exactly which steps keep `P`, it holds along a run exactly when `P` holds in
every state on the way; `K` is what carries the induction. -/
theorem along_iff {C : σ → α → Prop} {K P : σ → Prop} (hKP : ∀ s, K s → P s)
    (hK : ∀ s a u o, K s → C s a → step s a = some (u, o) → K u)
    (hC : ∀ s a u o, K s → step s a = some (u, o) → P u → C s a) (hs : K s)
    (h : run step s l = some (t, os)) :
    Along C step s l ↔ ∀ pre u os', pre <+: l → run step s pre = some (u, os') → P u := by
  induction l generalizing s os with
  | nil =>
    refine ⟨fun _ pre u os' hpre hu => ?_, fun _ => trivial⟩
    rw [List.prefix_nil.mp hpre] at hu
    rw [(run_nil.mp hu).1]
    exact hKP s hs
  | cons a l ih =>
    obtain ⟨u, o, os', h₁, h₂, -⟩ := run_cons.mp h
    constructor
    · rintro ⟨hc, hl⟩ pre v qs hpre hv
      rcases List.prefix_cons_iff.mp hpre with rfl | ⟨pre, rfl, hpre'⟩
      · rw [(run_nil.mp hv).1]
        exact hKP s hs
      · obtain ⟨u', o', qs', h₁', h₂', -⟩ := run_cons.mp hv
        cases h₁.symm.trans h₁'
        exact (ih (hK s a u o hs hc h₁) h₂).mp (hl u o h₁) pre v qs' hpre' h₂'
    · intro hall
      have hu : P u := hall [a] u [o] (List.prefix_append [a] l) (run_cons.mpr ⟨u, o, [], h₁, rfl, rfl⟩)
      have hc := hC s a u o hs h₁ hu
      refine ⟨hc, fun u' o' h₁' => ?_⟩
      cases h₁.symm.trans h₁'
      refine (ih (hK s a u o hs hc h₁) h₂).mpr fun pre v qs hpre hv => ?_
      exact hall (a :: pre) v (o :: qs) (List.cons_prefix_cons.mpr ⟨rfl, hpre⟩)
        (run_cons.mpr ⟨u, o, qs, h₁, hv, rfl⟩)

/-- What every step keeps holds after every run. -/
theorem run_invariant {P : σ → Prop} (hstep : ∀ s a u o, P s → step s a = some (u, o) → P u)
    (hs : P s) (h : run step s l = some (t, os)) : P t :=
  (along_of_forall (C := fun _ => True) fun _ _ => trivial).invariant
    (fun s a u o hP _ => hstep s a u o hP) hs h

/-- `Along.invariant`, for what is said of the state and of all the operations and answers so far. -/
theorem Along.trace {P : σ → List α → List ω → Prop} {C : σ → α → Prop}
    (hstep : ∀ s a u o as os, P s as os → C s a → step s a = some (u, o) → P u (as ++ [a]) (os ++ [o]))
    (hC : Along C step s l) (as₀ : List α) (os₀ : List ω) (hs : P s as₀ os₀)
    (h : run step s l = some (t, os)) : P t (as₀ ++ l) (os₀ ++ os) := by
  induction l generalizing s os as₀ os₀ with
  | nil => rw [(run_nil.mp h).1, (run_nil.mp h).2, List.append_nil, List.append_nil]; exact hs
  | cons a l ih =>
    obtain ⟨u, o, os', h₁, h₂, rfl⟩ := run_cons.mp h
    have := ih (hC.2 u o h₁) _ _ (hstep s a u o as₀ os₀ hs hC.1 h₁) h₂
    rwa [List.append_assoc, List.append_assoc] at this

/-- `Along.invariant`, for what is said of the state and of all the answers so far. -/
theorem Along.history {P : σ → List ω → Prop} {C : σ → α → Prop}
    (hstep : ∀ s a u o os, P s os → C s a → step s a = some (u, o) → P u (os ++ [o])) (hC : Along C step s l)
    {os₀ : List ω} (hs : P s os₀) (h : run step s l = some (t, os)) : P t (os₀ ++ os) :=
  hC.trace (P := fun s _ os => P s os) (fun s a u o _ os => hstep s a u o os) [] os₀ hs h

/-- `run_invariant`, for what is said of the state and of all the answers so far. -/
theorem run_history {P : σ → List ω → Prop}
    (hstep : ∀ s a u o os, P s os → step s a = some (u, o) → P u (os ++ [o]))
    {os₀ : List ω} (hs : P s os₀) (h : run step s l = some (t, os)) : P t (os₀ ++ os) :=
  (along_of_forall (C := fun _ => True) fun _ _ => trivial).history
    (fun s a u o os hP _ => hstep s a u o os hP) hs h

/-- `Along.invariant`, for what is also said of each answer on the way. -/
theorem Along.answers {P : σ → Prop} {Q : ω → Prop} {C : σ → α → Prop}
    (hstep : ∀ s a u o, P s → C s a → step s a = some (u, o) → P u ∧ Q o) (hC : Along C step s l) (hs : P s)
    (h : run step s l = some (t, os)) : ∀ o ∈ os, Q o := by
  induction l generalizing s os with
  | nil =>
    rw [(run_nil.mp h).2]
    exact fun o ho => absurd ho List.not_mem_nil
  | cons a l ih =>
    obtain ⟨u, o, os', h₁, h₂, rfl⟩ := run_cons.mp h
    obtain ⟨hP, hQ⟩ := hstep s a u o hs hC.1 h₁
    exact List.forall_mem_cons.mpr ⟨hQ, ih (hC.2 u o h₁) hP h₂⟩

/-- `run_invariant`, for what is also said of each answer on the way. -/
theorem run_answers {P : σ → Prop} {Q : ω → Prop}
    (hstep : ∀ s a u o, P s → step s a = some (u, o) → P u ∧ Q o)
    (hs : P s) (h : run step s l = some (t, os)) : ∀ o ∈ os, Q o :=
  (along_of_forall (C := fun _ => True) fun _ _ => trivial).answers
    (fun s a u o hP _ => hstep s a u o hP) hs h

/-- What every operation that does not panic leaves to the ones after it keeps a whole run from
panicking. -/
theorem run_isSome {P : σ → List α → Prop}
    (hstep : ∀ s a l, P s (a :: l) → ∃ u o, step s a = some (u, o) ∧ P u l) (hs : P s l) :
    ∃ t os, run step s l = some (t, os) := by
  induction l generalizing s with
  | nil => exact ⟨s, [], rfl⟩
  | cons a l ih =>
    obtain ⟨u, o, hu, hP⟩ := hstep s a l hs
    obtain ⟨t, os, h⟩ := ih hP
    exact ⟨t, o :: os, run_cons.mpr ⟨u, o, os, hu, h, rfl⟩⟩

theorem exists_run (hstep : ∀ s a, ∃ u o, step s a = some (u, o)) (s : σ) (l : List α) :
    ∃ t os, run step s l = some (t, os) :=
  run_isSome (P := fun _ _ => True) (fun s a _ _ => (hstep s a).imp fun _ h => h.imp fun _ h =>
    ⟨h, trivial⟩) trivial

/-- A run and the run of those of its operations that `keep` selects: where these lead to related
states with the same answers, and the others keep the relation, the second run answers as the first
one does to what was kept. -/
theorem Along.run_filter {R : σ → σ' → Prop} {C : σ → α → Prop} {step' : σ' → α → Option (σ' × ω)}
    (keep : α → Bool) (mine : ω → Bool)
    (hmine : ∀ s a u o, step s a = some (u, o) → mine o = keep a)
    (hkeep : ∀ s s' a u o, R s s' → C s a → keep a = true → step s a = some (u, o) → ∃ u',
      step' s' a = some (u', o) ∧ R u u')
    (hdrop : ∀ s s' a u o, R s s' → C s a → keep a = false → step s a = some (u, o) → R u s')
    (hC : Along C step s l) {s' : σ'} (hs : R s s') (h : run step s l = some (t, os)) :
    ∃ t', run step' s' (l.filter keep) = some (t', os.filter mine) ∧ R t t' := by
  induction l generalizing s s' os with
  | nil =>
    rw [(run_nil.mp h).1, (run_nil.mp h).2]
    exact ⟨s', rfl, hs⟩
  | cons a l ih =>
    obtain ⟨u, o, os', h₁, h₂, rfl⟩ := run_cons.mp h
    have hAlong := hC.2 u o h₁
    cases hk : keep a with
    | true =>
      obtain ⟨u', hu', hR⟩ := hkeep s s' a u o hs hC.1 hk h₁
      obtain ⟨t', ht', hRt⟩ := ih hAlong hR h₂
      rw [List.filter_cons_of_pos hk, List.filter_cons_of_pos ((hmine s a u o h₁).trans hk)]
      exact ⟨t', run_cons.mpr ⟨u', o, _, hu', ht', rfl⟩, hRt⟩
    | false =>
      have hm : ¬ mine o = true := by rw [hmine s a u o h₁, hk]; exact Bool.false_ne_true
      rw [List.filter_cons_of_neg (by rw [hk]; exact Bool.false_ne_true), List.filter_cons_of_neg hm]
      exact ih hAlong (hdrop s s' a u o hs hC.1 hk h₁) h₂

/-- Both panic, or both lead to states that are related, with the same answers. -/
inductive Alike {ω : Type*} (R : σ → σ' → Prop) : Option (σ × ω) → Option (σ' × ω) → Prop where
  | panic : Alike R none none
  | answer {t : σ} {t' : σ'} {o : ω} (h : R t t') : Alike R (some (t, o)) (some (t', o))

theorem Alike.mono {R R' : σ → σ' → Prop} {x : Option (σ × ω)} {y : Option (σ' × ω)} (h : Alike R x y)
    (hR : ∀ t t', R t t' → R' t t') : Alike R' x y := by
  cases h with
  | panic => exact .panic
  | answer h => exact .answer (hR _ _ h)

/-- Two machines whose steps keep `R` and answer alike answer alike in every run. -/
theorem run_related {β α' : Type*} {step' : σ' → α' → Option (σ' × ω)} {R : σ → σ' → Prop}
    {f : β → α} {f' : β → α'} (hstep : ∀ s s' b, R s s' → Alike R (step s (f b)) (step' s' (f' b)))
    {s' : σ'} (hs : R s s') (l : List β) :
    Alike R (run step s (l.map f)) (run step' s' (l.map f')) := by
  induction l generalizing s s' with
  | nil => exact .answer hs
  | cons b l ih =>
    have h := hstep s s' b hs
    simp only [List.map_cons, run]
    generalize step s (f b) = x at h
    generalize step' s' (f' b) = y at h
    cases h with
    | panic => exact .panic
    | answer hr =>
      rename_i u u' o
      have h' := ih hr
      simp only [Option.bind_some]
      generalize run step u (l.map f) = x at h'
      generalize run step' u' (l.map f') = y at h'
      cases h' with
      | panic => exact .panic
      | answer ht => exact .answer ht

end DesCartes.Machine
