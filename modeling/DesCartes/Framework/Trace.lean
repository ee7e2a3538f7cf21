import Mathlib.Data.List.Basic

/-!
# Traces

A trace is the list of the records that a run makes, the oldest first. `Open b ends tr` says that
the trace has the record `b` and that no record after it ends what `b` began, `Since P ends tr` that
this is so of some record with `P`; `Each P tr` says `P` of every record and the trace before it.
Both are told from the parts of a trace (`open_append`, `Each.append`) and from its last record
(`open_concat`, `each_concat`).

`Along C step s l` says `C` of every operation of the list `l` and the state it is performed in, in
the run from `s`; `Along.invariant` is the rule for what such runs keep, and `along_iff` for what
exactly they keep.
-/

namespace DesCartes.Trace

variable {α : Type*}

/-- The record `b` is in the trace, and none that ends it comes after. -/
def Open (b : α) (ends : α → Prop) (tr : List α) : Prop :=
  ∃ pre post, tr = pre ++ b :: post ∧ ∀ o ∈ post, ¬ ends o

section
variable {b : α} {ends : α → Prop} {tr q : List α}

theorem Open.mem (h : Open b ends tr) : b ∈ tr := by
  obtain ⟨pre, post, rfl, -⟩ := h
  exact List.mem_append_right _ List.mem_cons_self

theorem open_append : Open b ends (tr ++ q) ↔ (Open b ends tr ∧ ∀ o ∈ q, ¬ ends o) ∨ Open b ends q := by
  constructor
  · rintro ⟨pre, post, e, h⟩
    rcases List.append_eq_append_iff.mp e with ⟨l, rfl, hq⟩ | ⟨l, rfl, hl⟩
    · exact .inr ⟨l, post, hq, h⟩
    · rcases List.cons_eq_append_iff.mp hl with ⟨rfl, rfl⟩ | ⟨l', rfl, rfl⟩
      · exact .inr ⟨[], post, rfl, h⟩
      · refine .inl ⟨⟨pre, l', rfl, fun o ho => h o ?_⟩, fun o ho => h o ?_⟩
        · exact List.mem_append_left _ ho
        · exact List.mem_append_right _ ho
  · rintro (⟨⟨pre, post, rfl, h⟩, hq⟩ | ⟨pre, post, rfl, h⟩)
    · refine ⟨pre, post ++ q, by simp, fun o ho => ?_⟩
      rcases List.mem_append.mp ho with ho | ho
      · exact h o ho
      · exact hq o ho
    · exact ⟨tr ++ pre, post, by simp, h⟩

/-- Records among which `b` is not can only end it. -/
theorem open_append_of_notMem (hb : b ∉ q) : Open b ends (tr ++ q) ↔ Open b ends tr ∧ ∀ o ∈ q, ¬ ends o :=
  open_append.trans (or_iff_left fun h => hb h.mem)

theorem open_concat {o : α} : Open b ends (tr ++ [o]) ↔ (Open b ends tr ∧ ¬ ends o) ∨ o = b := by
  rw [open_append]
  refine or_congr (by simp) ⟨fun h => (List.mem_singleton.mp h.mem).symm, ?_⟩
  rintro rfl
  exact ⟨[], [], rfl, by simp⟩

/-- A record with `P` is in the trace, and none that ends it comes after. -/
def Since (P ends : α → Prop) (tr : List α) : Prop := ∃ b, P b ∧ Open b ends tr

theorem not_since_nil {P : α → Prop} : ¬ Since P ends [] := fun ⟨_, _, h⟩ => List.not_mem_nil h.mem

theorem since_concat {P : α → Prop} {o : α} :
    Since P ends (tr ++ [o]) ↔ (Since P ends tr ∧ ¬ ends o) ∨ P o := by
  simp only [Since, open_concat, and_or_left, exists_or]
  refine or_congr ⟨fun ⟨b, hb, h, ho⟩ => ⟨⟨b, hb, h⟩, ho⟩, fun ⟨⟨b, hb, h⟩, ho⟩ => ⟨b, hb, h, ho⟩⟩ ?_
  simp

theorem since_cons {P : α → Prop} {o : α} :
    Since P ends (o :: tr) ↔ (P o ∧ ∀ x ∈ tr, ¬ ends x) ∨ Since P ends tr := by
  constructor
  · rintro ⟨b, hb, pre, post, e, h⟩
    cases pre with
    | nil =>
      obtain ⟨rfl, rfl⟩ := List.cons.inj e
      exact .inl ⟨hb, h⟩
    | cons p pre =>
      obtain ⟨rfl, rfl⟩ := List.cons.inj e
      exact .inr ⟨b, hb, pre, post, rfl, h⟩
  · rintro (⟨ho, h⟩ | ⟨b, hb, pre, post, rfl, h⟩)
    · exact ⟨o, ho, [], tr, rfl, h⟩
    · exact ⟨b, hb, o :: pre, post, rfl, h⟩

/-- What is not open any more was ended by a first record. -/
theorem exists_first_of_not_open {pre post : List α} (h : ¬ Open b ends (pre ++ b :: post)) :
    ∃ p o q, post = p ++ o :: q ∧ ends o ∧ Open b ends (pre ++ b :: p) := by
  classical
  cases hf : post.find? fun o => ends o with
  | none =>
    refine absurd ⟨pre, post, rfl, fun o ho => ?_⟩ h
    simpa using List.find?_eq_none.mp hf o ho
  | some o =>
    obtain ⟨ho, p, q, rfl, hp⟩ := List.find?_eq_some_iff_append.mp hf
    exact ⟨p, o, q, rfl, by simpa using ho, pre, p, rfl, fun x hx => by simpa using hp x hx⟩

end

/-- What is said of every record and the trace before it. -/
def Each (P : List α → α → Prop) (tr : List α) : Prop := ∀ pre o post, tr = pre ++ o :: post → P pre o

theorem Each.nil {P : List α → α → Prop} : Each P [] := fun pre o post h => by simp at h

theorem Each.append {P : List α → α → Prop} {tr q : List α} (h : Each P tr)
    (hq : Each (fun pre o => P (tr ++ pre) o) q) :
    Each P (tr ++ q) := by
  intro pre o post e
  rcases List.append_eq_append_iff.mp e with ⟨l, rfl, hl⟩ | ⟨l, rfl, hl⟩
  · exact hq l o post hl
  · rcases List.cons_eq_append_iff.mp hl with ⟨rfl, rfl⟩ | ⟨l', rfl, rfl⟩
    · have := hq [] o post rfl
      simpa using this
    · exact h pre o l' rfl

theorem Each.concat {P : List α → α → Prop} {tr : List α} {o : α} (h : Each P tr) (ho : P tr o) :
    Each P (tr ++ [o]) := by
  refine h.append fun pre o' post e => ?_
  obtain ⟨rfl, rfl⟩ : pre = [] ∧ o' = o := by
    cases pre with
    | nil => exact ⟨rfl, (List.cons.inj e).1.symm⟩
    | cons p pre => simp at e
  simpa using ho

theorem each_concat {P : List α → α → Prop} {tr : List α} {o : α} :
    Each P (tr ++ [o]) ↔ Each P tr ∧ P tr o := by
  refine ⟨fun h => ⟨?_, h tr o [] rfl⟩, fun h => h.1.concat h.2⟩
  rintro pre o' post rfl
  exact h pre o' (post ++ [o]) (by simp)

theorem each_iff {P : List α → α → Prop} {tr : List α} :
    Each P tr ↔ ∀ i (hi : i < tr.length), P (tr.take i) tr[i] := by
  constructor
  · intro h i hi
    exact h _ _ (tr.drop (i + 1)) (by rw [List.getElem_cons_drop, List.take_append_drop])
  · rintro h pre o post rfl
    have := h pre.length (by simp)
    simpa using this

instance {P : List α → α → Prop} [∀ pre o, Decidable (P pre o)] {tr : List α} : Decidable (Each P tr) :=
  decidable_of_iff _ each_iff.symm

/-- Records of which it is said whatever came before. -/
theorem Each.of_mem {P : List α → α → Prop} {q : List α} (h : ∀ pre, ∀ o ∈ q, P pre o) : Each P q := by
  rintro pre o post rfl
  exact h pre o (List.mem_append_right _ List.mem_cons_self)

variable {σ β : Type*}

/-- `C` holds of every operation of the list and the state that it is performed in. -/
def Along (C : σ → β → Prop) (step : σ → β → σ) : σ → List β → Prop
  | _, [] => True
  | s, a :: l => C s a ∧ Along C step (step s a) l

/-- What every step keeps that `C` allows holds after every run along which `C` holds. -/
theorem Along.invariant {C : σ → β → Prop} {step : σ → β → σ} {P : σ → Prop}
    (hstep : ∀ s a, P s → C s a → P (step s a)) {s : σ} {l : List β} (h : Along C step s l) (hs : P s) :
    P (l.foldl step s) := by
  induction l generalizing s with
  | nil => exact hs
  | cons a l ih => exact ih h.2 (hstep s a hs h.1)

/-- Where `C` says exactly which steps keep `P`, it holds along a run exactly when `P` holds in every
state on the way. -/
theorem along_iff {C : σ → β → Prop} {step : σ → β → σ} {I P : σ → Prop} (hI : ∀ s a, I s → I (step s a))
    (hP : ∀ s a, I s → P s → (C s a ↔ P (step s a))) {s : σ} (hs : I s) (h : P s) (l : List β) :
    Along C step s l ↔ ∀ pre, pre <+: l → P (pre.foldl step s) := by
  induction l generalizing s with
  | nil =>
    refine ⟨fun _ pre hpre => ?_, fun _ => trivial⟩
    rw [List.prefix_nil.mp hpre]
    exact h
  | cons a l ih =>
    constructor
    · rintro ⟨hc, hl⟩ pre hpre
      rcases List.prefix_cons_iff.mp hpre with rfl | ⟨pre, rfl, hpre'⟩
      · exact h
      · exact (ih (hI s a hs) ((hP s a hs h).mp hc)).mp hl pre hpre'
    · intro hall
      have hstep : P (step s a) := hall [a] (List.prefix_append [a] l)
      refine ⟨(hP s a hs h).mpr hstep, (ih (hI s a hs) hstep).mpr fun pre hpre => ?_⟩
      exact hall (a :: pre) (List.cons_prefix_cons.mpr ⟨rfl, hpre⟩)

end DesCartes.Trace
