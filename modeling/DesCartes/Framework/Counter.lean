import DesCartes.Framework.Machine
import Mathlib.Data.List.Nodup
import Mathlib.Data.List.Range

/-!
# Counters along a run

A machine that names what it makes by a counter draws nothing in a step, or counts one up and draws
the name of the number that it comes to (`Draws`). What a run has drawn are then the names of
consecutive numbers (`run_drawn`), and they are distinct as long as the numbers up to that of the
counter have names of their own (`nodup_drawn`).
-/

namespace DesCartes.Machine

variable {σ α ω ι : Type*}

/-- What the operations of a run have drawn. -/
def drawn (draw : α → ω → Option ι) (as : List α) (os : List ω) : List ι := (as.zip os).filterMap fun p => draw p.1 p.2

/-- From `s` to `u`, nothing is drawn, or the name of the next number. -/
inductive Draws (count : σ → Nat) (name : Nat → ι) (s u : σ) : Option ι → Prop where
  | kept (h : count u = count s) : Draws count name s u none
  | drew (h : count u = count s + 1) : Draws count name s u (some (name (count s + 1)))

variable {step : σ → α → Option (σ × ω)} {draw : α → ω → Option ι} {count : σ → Nat} {name : Nat → ι} {s t : σ} {l : List α}
  {os : List ω}

/-- What a run has drawn are the names of the numbers from that of the counter on. -/
theorem run_drawn {P : σ → Prop}
    (hstep : ∀ s a u o, P s → step s a = some (u, o) → P u ∧ Draws count name s u (draw a o)) (hs : P s)
    (h : run step s l = some (t, os)) :
    ∃ n, count t = count s + n ∧ drawn draw l os = (List.range' (count s + 1) n).map name := by
  induction l generalizing s os with
  | nil =>
    rw [(run_nil.mp h).1]
    exact ⟨0, rfl, rfl⟩
  | cons a l ih =>
    obtain ⟨u, o, os', h₁, h₂, rfl⟩ := run_cons.mp h
    obtain ⟨hu, hdraws⟩ := hstep s a u o hs h₁
    obtain ⟨n, hcount, hdrawn⟩ := ih hu h₂
    have hcons : drawn draw (a :: l) (o :: os') = (draw a o).toList ++ drawn draw l os' := by
      rw [drawn, List.zip_cons_cons, List.filterMap_cons]
      cases draw a o <;> rfl
    rw [hcons]
    generalize draw a o = d at hdraws
    cases hdraws with
    | kept hkept =>
      rw [hkept] at hcount hdrawn
      exact ⟨n, hcount, by rw [hdrawn, Option.toList_none, List.nil_append]⟩
    | drew hdrew =>
      rw [hdrew] at hcount hdrawn
      refine ⟨n + 1, by omega, ?_⟩
      rw [hdrawn, Option.toList_some, List.singleton_append, List.range'_succ, List.map_cons]

/-- What a run has drawn is distinct if the numbers that the counter can come to have names of their own. -/
theorem nodup_drawn {P : σ → Prop} {bound : Nat}
    (hname : ∀ m n, m ≤ bound → n ≤ bound → name m = name n → m = n)
    (hbound : ∀ s, P s → count s ≤ bound)
    (hstep : ∀ s a u o, P s → step s a = some (u, o) → P u ∧ Draws count name s u (draw a o))
    (hs : P s) (h : run step s l = some (t, os)) : (drawn draw l os).Nodup := by
  obtain ⟨n, hcount, hdrawn⟩ := run_drawn hstep hs h
  have hle := hbound t (run_invariant (fun s a u o hP hu => (hstep s a u o hP hu).1) hs h)
  rw [hdrawn]
  refine List.Nodup.map_on (fun i hi j hj => hname i j ?_ ?_) List.nodup_range'
  · have := List.mem_range'_1.mp hi
    omega
  · have := List.mem_range'_1.mp hj
    omega

end DesCartes.Machine
