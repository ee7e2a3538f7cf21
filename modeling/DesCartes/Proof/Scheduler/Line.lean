import DesCartes.Proof.Hosted
import DesCartes.Proof.Scheduler.Fifo

/-!
# Events that leave in order

Under the FIFO policy an event is popped before all that the heap still holds. A `Line` is a list of
events of the heap in the order in which they will be popped; other events may come between them.

* `Line.keep`: what other events do to a line;
* `Line.pop`: an event of a line that is popped is the first;
* `Line.push`: an event that is scheduled for no earlier time than the events of a line is the last.
-/

namespace DesCartes

variable {ε τ ρ : Type}

namespace Session

open EventEntry (Before)

variable {r r' : Session ε τ ρ} {op : Op ε τ ρ FifoFrontierPolicy} {o : Answer ε} {e : EventEntry ε}

/-- An event that is popped comes before everything left. -/
theorem before_of_popped (h : r.step op = some (r', o)) (ho : o.popped? = some e) :
    ∀ x ∈ r'.heap, Before e x := by
  cases op with
  | pop =>
    cases h
    exact Scheduler.pop_first (Prod.ext ho rfl)
  | popWithPolicy policy =>
    cases h
    exact Scheduler.popWithPolicy_first Scheduler.choosesFirst_fifo (Prod.ext ho rfl)
  | execute policy =>
    cases h
    rw [heap, (start_keep _ _).1]
    exact Scheduler.popWithPolicy_first Scheduler.choosesFirst_fifo (Prod.ext ho rfl)
  | schedule =>
    simp only [Session.step] at h
    split at h <;> cases h
    cases ho
  | scheduleTask =>
    simp only [Session.step] at h
    split at h <;> cases h
    cases ho
  | cancelTask =>
    cases h
    cases ho
  | finish again result =>
    exfalso
    simp only [Session.step] at h
    split at h
    · cases h
    split at h
    · cases h
      cases ho
    · obtain ⟨q, hq, he⟩ := Option.map_eq_some_iff.mp h
      cases he
      unfold reschedule at hq
      split at hq
      · cases hq
      · split at hq <;> cases hq
        cases ho

theorem Reached.heap_nodup (h : r.Reached) : (r.heap.map EventEntry.seq).Nodup := by
  obtain ⟨os, hk⟩ := h.kept
  have hn := hk.nodup
  rw [List.map_append] at hn
  exact hn.of_append_left

theorem Reached.seq_le (h : r.Reached) : ∀ x ∈ r.heap, x.seq ≤ r.scheduler.nextEventId := by
  obtain ⟨os, hk⟩ := h.kept
  exact fun x hx => hk.seq_le x (hk.held_scheduled x hx)

theorem reached_fresh (seed : BitVec 64) : (fresh seed : Session ε τ ρ).Reached :=
  ⟨wf_fresh seed, [], kept_fresh seed⟩

/-- What is left in the heap was there before, and what was there is left or popped, or the event of
a cancelled task. -/
theorem Effect.mem {φ : Type} {op : Op ε τ ρ φ} (h : Effect r r' op o) {x : EventEntry ε} :
    (x ∈ r'.heap → o.scheduled? = some x ∨ x ∈ r.heap) ∧
      (o.scheduled? = some x ∨ x ∈ r.heap → x.taskId ≠ none ∨ o.popped? = some x ∨ x ∈ r'.heap) := by
  obtain ⟨d, hd, hperm⟩ := h.perm
  have hmem := hperm.mem_iff (a := x)
  simp only [List.mem_append, Option.mem_toList] at hmem
  refine ⟨fun hx => hmem.mpr (.inr hx), fun hx => ?_⟩
  rcases hmem.mp hx with (hx | hx) | hx
  · exact .inl (hd x hx)
  · exact .inr (.inl hx)
  · exact .inr (.inr hx)

theorem scheduled_of_popped (ho : o.popped? = some e) : o.scheduled? = none := by
  cases o with
  | popped => rfl
  | _ => cases ho

theorem Effect.mem_popped {φ : Type} {op : Op ε τ ρ φ} (h : Effect r r' op o)
    (ho : o.popped? = some e) : e ∈ r.heap := by
  obtain ⟨d, -, hperm⟩ := h.perm
  rw [scheduled_of_popped ho, ho] at hperm
  exact hperm.mem_iff.mpr (List.mem_append_left _ (List.mem_append_right _ List.mem_cons_self))

/-- An event that is popped is gone. -/
theorem Reached.not_mem_popped (h : r.Reached) (heffect : Effect r r' op o)
    (ho : o.popped? = some e) : e ∉ r'.heap := by
  obtain ⟨d, -, hperm⟩ := heffect.perm
  rw [scheduled_of_popped ho, ho] at hperm
  have hn := ((hperm.map EventEntry.seq).nodup_iff).mp h.heap_nodup
  simp only [Option.toList_some, List.append_assoc, List.map_append, List.map_cons] at hn
  exact fun hmem => (List.nodup_cons.mp (List.nodup_append.mp hn).2.1).1 (List.mem_map_of_mem hmem)

end Session

/-- Events of the heap, in the order in which they will be popped. They are of the kind that `f`
gives a value to, and where `E` holds they are all of that kind. -/
structure Line {β : Type} (f : EventEntry ε → Option β) (E : Prop) (r : Session ε τ ρ) (l : List (EventEntry ε)) : Prop where
  held : ∀ e ∈ l, e ∈ r.heap
  mine : ∀ e ∈ l, f e ≠ none
  sorted : l.Pairwise EventEntry.Before
  nodup : l.Nodup
  complete : E → ∀ e ∈ r.heap, f e ≠ none → e ∈ l

namespace Line

open EventEntry (Before)

variable {β : Type} {f : EventEntry ε → Option β} {E : Prop} {r r' : Session ε τ ρ}
  {op : Op ε τ ρ FifoFrontierPolicy} {o : Answer ε}
  {l : List (EventEntry ε)} {e : EventEntry ε}

theorem nil (h : r.heap = []) : Line f E r [] := ⟨nofun, nofun, .nil, .nil, by simp [h]⟩

theorem not_mem (h : Line f E r l) (he : f e = none) : e ∉ l := fun hmem => h.mine e hmem he

/-- What is not popped from a line stays in it. -/
theorem keep (hf : ∀ e, e.taskId ≠ none → f e = none) (h : Line f E r l)
    (heffect : Session.Effect r r' op o) (hpopped : ∀ e, o.popped? = some e → e ∉ l)
    (hscheduled : E → ∀ e, o.scheduled? = some e → f e = none) : Line f E r' l := by
  refine ⟨fun e he => ?_, h.mine, h.sorted, h.nodup, fun hE e he hfe => ?_⟩
  · rcases heffect.mem.2 (.inr (h.held e he)) with htask | ho | hmem
    · exact absurd (hf e htask) (h.mine e he)
    · exact absurd he (hpopped e ho)
    · exact hmem
  · rcases heffect.mem.1 he with ho | hmem
    · exact absurd (hscheduled hE e ho) hfe
    · exact h.complete hE e hmem hfe

/-- An event of a line that is popped is the first of it. -/
theorem pop (hf : ∀ e, e.taskId ≠ none → f e = none) (h : Line f E r l) (hr : r.Reached)
    (hs : r.step op = some (r', o)) (ho : o.popped? = some e) (he : e ∈ l) :
    ∃ l', l = e :: l' ∧ Line f E r' l' := by
  have heffect := Session.effect hs
  have hleft : ∀ x ∈ l, x ≠ e → x ∈ r'.heap := by
    intro x hx hne
    rcases heffect.mem.2 (.inr (h.held x hx)) with htask | ho' | hmem
    · exact absurd (hf x htask) (h.mine x hx)
    · exact absurd (Option.some.inj (ho'.symm.trans ho)) hne
    · exact hmem
  have hgone := hr.not_mem_popped heffect ho
  -- what comes before the event in the line has its time and number
  obtain ⟨front, l', rfl⟩ := List.append_of_mem he
  obtain rfl : front = [] := by
    refine List.eq_nil_iff_forall_not_mem.mpr fun x hx => ?_
    have hne : x ≠ e := by
      rintro rfl
      exact (List.nodup_append.mp h.nodup).2.2 x hx x List.mem_cons_self rfl
    have hxe := (List.pairwise_append.mp h.sorted).2.2 x hx e List.mem_cons_self
    have hex := Session.before_of_popped hs ho x (hleft x (List.mem_append_left _ hx) hne)
    exact hne (List.inj_on_of_nodup_map hr.heap_nodup (h.held x (List.mem_append_left _ hx)) (h.held e he)
      (Scheduler.seq_eq_of_before hxe hex))
  obtain ⟨hnotin, hnodup⟩ := List.nodup_cons.mp h.nodup
  have hne : ∀ x ∈ l', x ≠ e := fun x hx he => hnotin (he ▸ hx)
  refine ⟨l', rfl, fun x hx => hleft x (List.mem_cons_of_mem _ hx) (hne x hx),
    fun x hx => h.mine x (List.mem_cons_of_mem _ hx),
    (List.pairwise_cons.mp h.sorted).2, hnodup, fun hE x hx hfx => ?_⟩
  rcases heffect.mem.1 hx with ho' | hmem
  · rw [Session.scheduled_of_popped ho] at ho'
    cases ho'
  · rcases List.mem_cons.mp (h.complete hE x hmem hfx) with rfl | hmem
    · exact absurd hx hgone
    · exact hmem

/-- An event that is scheduled for no earlier time than those of a line is its last. -/
theorem push (hf : ∀ e, e.taskId ≠ none → f e = none) (h : Line f E r l) (hr : r.Reached)
    (heffect : Session.Effect r r' op o) (ho : o.scheduled? = some e) (hfe : f e ≠ none)
    (htime : ∀ x ∈ l, x.time ≤ e.time) : Line f E r' (l ++ [e]) := by
  have hseq : ∀ x ∈ l, x.seq < e.seq := by
    intro x hx
    rw [(heffect.added e ho).1]
    exact Nat.lt_succ_of_le (hr.seq_le x (h.held x hx))
  have hpopped : o.popped? = none := by
    cases o with
    | scheduled => rfl
    | _ => cases ho
  have hstays : ∀ x, o.scheduled? = some x ∨ x ∈ r.heap → f x ≠ none → x ∈ r'.heap := by
    intro x hx hfx
    rcases heffect.mem.2 hx with htask | ho' | hmem
    · exact absurd (hf x htask) hfx
    · rw [hpopped] at ho'
      cases ho'
    · exact hmem
  refine ⟨?_, ?_, ?_, ?_, fun hE x hx hfx => ?_⟩
  · refine List.forall_mem_append.mpr ⟨fun x hx => hstays x (.inr (h.held x hx)) (h.mine x hx), ?_⟩
    exact List.forall_mem_singleton.mpr (hstays e (.inl ho) hfe)
  · exact List.forall_mem_append.mpr ⟨h.mine, List.forall_mem_singleton.mpr hfe⟩
  · refine List.pairwise_append.mpr ⟨h.sorted, List.pairwise_singleton ..,
      fun x hx => List.forall_mem_singleton.mpr ?_⟩
    rcases (htime x hx).lt_or_eq with hlt | heq
    · exact .inl hlt
    · exact .inr ⟨heq, (hseq x hx).le⟩
  · refine List.nodup_append.mpr ⟨h.nodup, List.nodup_singleton e,
      fun x hx => List.forall_mem_singleton.mpr ?_⟩
    rintro rfl
    exact absurd (hseq x hx) (lt_irrefl _)
  · rcases heffect.mem.1 hx with ho' | hmem
    · rw [ho] at ho'
      exact List.mem_append_right _ (List.mem_singleton.mpr (Option.some.inj ho').symm)
    · exact List.mem_append_left _ (h.complete hE x hmem hfx)

end Line

namespace Session

variable {r r' : Session ε τ ρ} {send : Send ε} {sends : List (Send ε)}

/-- A component makes its calls of `schedule` one after the other. -/
theorem step_of_sendAll {φ : Type} [EventFrontierPolicy φ] (h : r.sendAll (send :: sends) = some r') :
    ∃ r₁, r.step (.schedule send.delay send.target send.event : Op ε τ ρ φ) =
      some (r₁, .scheduled (r.scheduler.scheduledEvent send.delay send.target send.event)) ∧
      r₁.sendAll sends = some r' := by
  simp only [sendAll] at h
  split at h
  · rename_i hlt
    exact ⟨_, if_pos hlt, h⟩
  · cases h

theorem Reached.sendAll (hr : r.Reached) (h : r.sendAll sends = some r') : r'.Reached := by
  induction sends generalizing r with
  | nil => exact Option.some.inj h ▸ hr
  | cons send sends ih =>
    obtain ⟨r₁, hs, h⟩ := step_of_sendAll (φ := FifoFrontierPolicy) h
    exact ih (hr.step _ hs) h

end Session

/-- A line after a component has scheduled events of other kinds. -/
theorem Line.sendAll {β : Type} {f : EventEntry ε → Option β}
    (hf : ∀ e, e.taskId ≠ none → f e = none) {E : Prop} {r r' : Session ε τ ρ}
    {l : List (EventEntry ε)} {sends : List (Send ε)} (hl : Line f E r l)
    (h : r.sendAll sends = some r')
    (hquiet : E → ∀ send ∈ sends, ∀ i t, f (.component i t send.target send.event) = none) :
    Line f E r' l := by
  induction sends generalizing r with
  | nil => exact Option.some.inj h ▸ hl
  | cons send sends ih =>
    obtain ⟨r₁, hs, h⟩ := Session.step_of_sendAll (φ := FifoFrontierPolicy) h
    refine ih (hl.keep hf (Session.effect hs) nofun fun hE e he => ?_) h fun hE s hmem => hquiet hE s
      (List.mem_cons_of_mem _ hmem)
    rw [← Option.some.inj he]
    exact hquiet hE send List.mem_cons_self _ _

end DesCartes
