import DesCartes.Impl.Scheduler

/-!
# What a pop takes from the scheduler

`pop` and `pop_with_policy` take events out of the heap, drop those of cancelled tasks together
with their marks, and put some back. `Took s s' d r` says what `s'` is after `s` has lost the
events `d` to cancellations and the events `r` to the caller, and nothing else; it composes
(`Took.trans`).

* `popLive_took`: the first loop takes the head of the heap, after the cancelled events;
* `collectFrontier_took`: the second loop takes the events of the frontier's time;
* `pop_spec`, `popWithPolicy_spec`: the two operations pop an event (`Popped`), or there is none
  that is not cancelled (`Exhausted`).
-/

namespace DesCartes.Scheduler

variable {ε τ ρ φ : Type}

/-- `s'` is `s` without the events `d`, dropped with the marks of their cancelled tasks, and the
events `r`, of tasks that are not marked. -/
structure Took (s s' : Scheduler ε τ ρ) (d r : List (EventEntry ε)) : Prop where
  keep : s' = { s with events := s'.events, cancelledTasks := s'.cancelledTasks }
  perm : s.events.toList.Perm (d ++ r ++ s'.events.toList)
  dropped : ∀ e ∈ d, ∃ id ∈ s.cancelledTasks, e.taskId = some id
  cancelled : ∀ id, id ∈ s'.cancelledTasks ↔ id ∈ s.cancelledTasks ∧ some id ∉ d.map EventEntry.taskId
  live : ∀ e ∈ r, ∀ id, e.taskId = some id → id ∉ s'.cancelledTasks

theorem Took.refl (s : Scheduler ε τ ρ) : Took s s [] [] where
  keep := rfl
  perm := .refl _
  dropped _ h := absurd h List.not_mem_nil
  cancelled _ := by simp
  live _ h := absurd h List.not_mem_nil

theorem Took.trans {s₁ s₂ s₃ : Scheduler ε τ ρ} {d₁ d₂ r₁ r₂ : List (EventEntry ε)} (h₁ : Took s₁ s₂ d₁ r₁)
    (h₂ : Took s₂ s₃ d₂ r₂) : Took s₁ s₃ (d₁ ++ d₂) (r₁ ++ r₂) where
  keep := by rw [h₂.keep, h₁.keep]
  perm := by
    refine h₁.perm.trans ((h₂.perm.append_left (d₁ ++ r₁)).trans ?_)
    -- `r₁` and `d₂` change places.
    simp only [List.append_assoc]
    refine List.Perm.append_left d₁ ?_
    rw [← List.append_assoc, ← List.append_assoc d₂]
    exact List.perm_append_comm.append_right _
  dropped e he := by
    rcases List.mem_append.mp he with he | he
    · exact h₁.dropped e he
    · obtain ⟨id, hid, e'⟩ := h₂.dropped e he
      exact ⟨id, ((h₁.cancelled id).mp hid).1, e'⟩
  cancelled id := by
    rw [h₂.cancelled, h₁.cancelled, List.map_append, List.mem_append, not_or, and_assoc]
  live e he id hid := by
    rcases List.mem_append.mp he with he | he
    · exact fun h => h₁.live e he id hid ((h₂.cancelled id).mp h).1
    · exact h₂.live e he id hid

theorem Took.clock {s s' : Scheduler ε τ ρ} {d r : List (EventEntry ε)} (h : Took s s' d r) :
    s'.clock = s.clock := by
  rw [h.keep]

/-- Events that are taken and put back are not taken. -/
theorem Took.pushAll {s s' : Scheduler ε τ ρ} {d r r' l : List (EventEntry ε)} (h : Took s s' d r)
    (hr : r.Perm (r' ++ l)) : Took s { s' with events := s'.events.pushAll l } d r' where
  keep := by rw [h.keep]
  perm := by
    refine h.perm.trans ?_
    simp only [List.append_assoc]
    refine List.Perm.append_left d ((hr.append_right _).trans ?_)
    rw [List.append_assoc]
    exact List.Perm.append_left r' (BinaryHeap.pushAll_perm _ _).symm
  dropped := h.dropped
  cancelled := h.cancelled
  live e he := h.live e (hr.mem_iff.mpr (List.mem_append_left _ he))

theorem isCancelledTaskEvent_cases (s : Scheduler ε τ ρ) (e : EventEntry ε) :
    (∃ id ∈ s.cancelledTasks, e.taskId = some id ∧
      s.isCancelledTaskEvent e = (true, { s with cancelledTasks := s.cancelledTasks.erase id })) ∨
    ((∀ id, e.taskId = some id → id ∉ s.cancelledTasks) ∧ s.isCancelledTaskEvent e = (false, s)) := by
  cases e with
  | component i t c v => exact .inr ⟨nofun, rfl⟩
  | task i t id =>
    by_cases h : id ∈ s.cancelledTasks
    · exact .inl ⟨id, h, rfl, by simp [isCancelledTaskEvent, h]⟩
    · refine .inr ⟨fun id' h' => ?_, by simp [isCancelledTaskEvent, h]⟩
      cases h'
      exact h

/-- Popping the event of a cancelled task drops it and its mark. -/
theorem Took.drop {s : Scheduler ε τ ρ} {e : EventEntry ε} {events : BinaryHeap (EventEntry ε)} {id : TaskId}
    (hp : s.events.pop = some (e, events)) (hid : id ∈ s.cancelledTasks) (he : e.taskId = some id) :
    Took s { s with events, cancelledTasks := s.cancelledTasks.erase id } [e] [] where
  keep := rfl
  perm := by rw [BinaryHeap.pop_eq_some.mp hp]; rfl
  dropped x hx := by
    rw [List.mem_singleton.mp hx]
    exact ⟨id, hid, he⟩
  cancelled id' := by
    simp only [Finset.mem_erase, List.map_cons, List.map_nil, List.mem_singleton, he, Option.some.injEq]
    exact and_comm
  live _ h := absurd h List.not_mem_nil

/-- Popping any other event takes it. -/
theorem Took.take {s : Scheduler ε τ ρ} {e : EventEntry ε} {events : BinaryHeap (EventEntry ε)}
    (hp : s.events.pop = some (e, events)) (he : ∀ id, e.taskId = some id → id ∉ s.cancelledTasks) :
    Took s { s with events } [] [e] where
  keep := rfl
  perm := by rw [BinaryHeap.pop_eq_some.mp hp]; rfl
  dropped _ h := absurd h List.not_mem_nil
  cancelled _ := by simp
  live x hx := by
    rw [List.mem_singleton.mp hx]
    exact he

/-- The first loop: it drops the cancelled events at the head of the heap and takes the next one,
if there is one. -/
theorem popLive_took : ∀ (n : Nat) (s : Scheduler ε τ ρ), s.events.len ≤ n → ∃ d, match popLive n s with
    | (none, s') => Took s s' d [] ∧ s'.events.toList = []
    | (some e, s') => Took s s' d [e] ∧ s.events.toList = d ++ e :: s'.events.toList
  | 0, s, hn => by
    refine ⟨[], Took.refl s, ?_⟩
    exact List.length_eq_zero_iff.mp (Nat.le_zero.mp hn)
  | n + 1, s, hn => by
    cases hp : s.events.pop with
    | none => exact ⟨[], by simpa only [popLive, hp] using ⟨Took.refl s, BinaryHeap.pop_eq_none.mp hp⟩⟩
    | some r =>
      obtain ⟨e, events⟩ := r
      have hl := BinaryHeap.pop_eq_some.mp hp
      have hlen : events.len ≤ n := by
        rw [BinaryHeap.len, hl, List.length_cons] at hn
        exact Nat.le_of_succ_le_succ hn
      simp only [popLive, hp]
      rcases isCancelledTaskEvent_cases { s with events } e with ⟨id, hid, he, hc⟩ | ⟨he, hc⟩
      · simp only [hc]
        obtain ⟨d, h⟩ := popLive_took n { s with events, cancelledTasks := s.cancelledTasks.erase id } hlen
        refine ⟨e :: d, ?_⟩
        have hd := Took.drop hp hid he
        generalize popLive n { s with events, cancelledTasks := s.cancelledTasks.erase id } = q at h ⊢
        rcases q with ⟨_ | e', s'⟩
        · exact ⟨hd.trans h.1, h.2⟩
        · exact ⟨hd.trans h.1, by rw [hl, h.2, List.cons_append]⟩
      · simp only [hc]
        exact ⟨[], Took.take hp he, hl⟩

/-- The second loop: it takes the events of the given time from the head of the heap, but for the
cancelled ones, and leaves the others. -/
theorem collectFrontier_took (t : SimTime) : ∀ (n : Nat) (s : Scheduler ε τ ρ) (acc : List (EventEntry ε)),
    s.events.len ≤ n → (∀ e ∈ s.events.toList, t ≤ e.time) →
    ∃ d f, (collectFrontier t n s acc).1 = acc ++ f ∧ Took s (collectFrontier t n s acc).2 d f ∧
      f.Sublist s.events.toList ∧ (∀ e ∈ f, e.time = t) ∧
      ∀ e ∈ (collectFrontier t n s acc).2.events.toList, t < e.time
  | 0, s, acc, hn, _ => by
    have : s.events.toList = [] := List.length_eq_zero_iff.mp (Nat.le_zero.mp hn)
    refine ⟨[], [], (List.append_nil _).symm, Took.refl s, List.nil_sublist _, by simp, ?_⟩
    rw [show collectFrontier t 0 s acc = (acc, s) from rfl, this]
    simp
  | n + 1, s, acc, hn, hge => by
    cases hp : s.events.pop with
    | none =>
      have : s.events.toList = [] := BinaryHeap.pop_eq_none.mp hp
      simp only [collectFrontier, hp]
      exact ⟨[], [], (List.append_nil _).symm, Took.refl s, List.nil_sublist _, by simp, by simp [this]⟩
    | some r =>
      obtain ⟨e, events⟩ := r
      have hl := BinaryHeap.pop_eq_some.mp hp
      have hlen : events.len ≤ n := by
        rw [BinaryHeap.len, hl, List.length_cons] at hn
        exact Nat.le_of_succ_le_succ hn
      have hge' : ∀ x ∈ events.toList, t ≤ x.time :=
        fun x hx => hge x (by rw [hl]; exact List.mem_cons_of_mem _ hx)
      simp only [collectFrontier, hp]
      by_cases ht : e.time = t
      · simp only [ht, ne_eq, not_true_eq_false, if_false]
        rcases isCancelledTaskEvent_cases { s with events } e with ⟨id, hid, he, hc⟩ | ⟨he, hc⟩
        · simp only [hc]
          obtain ⟨d, f, e₁, h₁, hf, ht', hr⟩ := collectFrontier_took t n
            { s with events, cancelledTasks := s.cancelledTasks.erase id } acc hlen hge'
          refine ⟨e :: d, f, e₁, (Took.drop hp hid he).trans h₁, ?_, ht', hr⟩
          rw [hl]
          exact hf.cons _
        · simp only [hc]
          obtain ⟨d, f, e₁, h₁, hf, ht', hr⟩ := collectFrontier_took t n { s with events }
            (acc ++ [e]) hlen hge'
          refine ⟨d, e :: f, by rw [e₁, List.append_assoc]; rfl, (Took.take hp he).trans h₁, ?_, ?_, hr⟩
          · rw [hl]
            exact hf.cons_cons _
          · intro x hx
            rcases List.mem_cons.mp hx with rfl | hx
            · exact ht
            · exact ht' x hx
      · -- The head is later than `t`, and so is everything behind it.
        simp only [ne_eq, ht, not_false_eq_true, if_true]
        refine ⟨[], [], (List.append_nil _).symm, Took.refl s, List.nil_sublist _, by simp, fun x hx => ?_⟩
        have hte : t < e.time := lt_of_le_of_ne
          (hge e (by rw [hl]; exact List.mem_cons_self)) fun h => ht h.symm
        rw [hl] at hx
        rcases List.mem_cons.mp hx with rfl | hx
        · exact hte
        · rcases EventEntry.isLE_compare.mp (BinaryHeap.head_isGE hl hx) with h | ⟨h, -⟩
          · exact hte.trans h
          · exact h ▸ hte

theorem chooseIndex_lt [EventFrontierPolicy φ] (policy : φ) (t : SimTime) {entries : List (EventEntry ε)}
    (h : entries ≠ []) : (chooseIndex policy t entries).1 < entries.length := by
  have := List.length_pos_iff.mpr h
  simp only [chooseIndex]
  omega

/-- The entries of a frontier are of one time. -/
theorem entries_time {first : EventEntry ε} {f entries : List (EventEntry ε)} (hf : entries = [first] ++ f)
    (ht : ∀ e ∈ f, e.time = first.time) : ∀ e ∈ entries, e.time = first.time := by
  intro x hx
  rw [hf] at hx
  rcases List.mem_cons.mp hx with rfl | hx
  · rfl
  · exact ht x hx

/-- `s'` is `s` after the event `e` has been popped and the events `d` have been dropped: the clock
is set to `e`, which is no later than the events left. -/
structure Popped (s s' : Scheduler ε τ ρ) (d : List (EventEntry ε)) (e : EventEntry ε) : Prop where
  took : Took s { s' with clock := s.clock } d [e]
  clock : s'.clock = e.time
  least : ∀ x ∈ s'.events.toList, e.time ≤ x.time

/-- `s'` is `s` after every event has been dropped. -/
structure Exhausted (s s' : Scheduler ε τ ρ) (d : List (EventEntry ε)) : Prop where
  took : Took s s' d []
  nil : s'.events.toList = []

theorem Popped.perm {s s' : Scheduler ε τ ρ} {d : List (EventEntry ε)} {e : EventEntry ε}
    (h : Popped s s' d e) :
    s.events.toList.Perm (d ++ e :: s'.events.toList) := by
  simpa using h.took.perm

theorem Popped.keep {s s' : Scheduler ε τ ρ} {d : List (EventEntry ε)} {e : EventEntry ε}
    (h : Popped s s' d e) :
    s' = { s with events := s'.events, cancelledTasks := s'.cancelledTasks, clock := e.time } := by
  have := h.took.keep
  rw [← h.clock]
  cases s'
  simp only [Scheduler.mk.injEq] at this ⊢
  exact ⟨this.1, this.2.1, this.2.2.1, trivial, trivial, this.2.2.2.2.2.1, this.2.2.2.2.2.2.1, trivial,
    this.2.2.2.2.2.2.2.2⟩

/-- Behind its head, a heap holds nothing earlier. -/
theorem time_le_of_head {h : BinaryHeap (EventEntry ε)} {d l : List (EventEntry ε)} {e x : EventEntry ε}
    (hl : h.toList = d ++ e :: l) (hx : x ∈ l) : e.time ≤ x.time := by
  have hs := h.sorted
  rw [hl] at hs
  have hs' := (List.pairwise_append.mp hs).2.1
  rcases EventEntry.isLE_compare.mp (List.rel_of_pairwise_cons hs' hx) with h | ⟨h, -⟩
  · exact h.le
  · exact h.le

/-- The first event of a heap that is not cancelled, by the marks `c`, each of which counts once. -/
def firstLive : List (EventEntry ε) → Finset TaskId → Option (EventEntry ε)
  | [], _ => none
  | .component i t c v :: _, _ => some (.component i t c v)
  | .task i t id :: l, c => if id ∈ c then firstLive l (c.erase id) else some (.task i t id)

theorem fst_popLive (n : Nat) (s : Scheduler ε τ ρ) (hn : s.events.len ≤ n) :
    (popLive n s).1 = firstLive s.events.toList s.cancelledTasks := by
  induction n generalizing s with
  | zero =>
    rw [show s.events.toList = [] from List.length_eq_zero_iff.mp (Nat.le_zero.mp hn)]
    rfl
  | succ n ih =>
    cases hp : s.events.pop with
    | none =>
      rw [BinaryHeap.pop_eq_none.mp hp]
      simp only [popLive, hp, firstLive]
    | some r =>
      obtain ⟨e, events⟩ := r
      have hl := BinaryHeap.pop_eq_some.mp hp
      have hlen : events.len ≤ n := by
        rw [BinaryHeap.len, hl, List.length_cons] at hn
        exact Nat.le_of_succ_le_succ hn
      rw [hl]
      simp only [popLive, hp]
      cases e with
      | component i t c v => rfl
      | task i t id =>
        by_cases h : id ∈ s.cancelledTasks
        · simp only [isCancelledTaskEvent, h, if_true, firstLive]
          exact ih _ hlen
        · simp only [isCancelledTaskEvent, h, if_false, firstLive]

theorem pop_spec (s : Scheduler ε τ ρ) : ∃ d, match s.pop with
    | (none, s') => Exhausted s s' d
    | (some e, s') => Popped s s' d e ∧ s.events.toList = d ++ e :: s'.events.toList := by
  obtain ⟨d, h⟩ := popLive_took s.events.len s le_rfl
  refine ⟨d, ?_⟩
  unfold pop
  generalize popLive s.events.len s = q at h
  rcases q with ⟨_ | e, s'⟩
  · exact ⟨h.1, h.2⟩
  · refine ⟨⟨?_, rfl, fun x hx => time_le_of_head h.2 hx⟩, h.2⟩
    have := h.1.clock
    simp only [← this]
    exact h.1

/-- The event popped is the one the policy chose among the entries, the events of its time that are
not cancelled; what is left is one of the entries or later. -/
structure Chosen [EventFrontierPolicy φ] (s' : Scheduler ε τ ρ) (policy : φ) (e : EventEntry ε)
    (entries : List (EventEntry ε)) : Prop where
  chosen : entries[(chooseIndex policy e.time entries).1]? = some e
  time : ∀ x ∈ entries, x.time = e.time
  left : ∀ x ∈ s'.events.toList, x ∈ entries ∨ e.time < x.time

theorem popWithPolicy_spec [EventFrontierPolicy φ] (s : Scheduler ε τ ρ) (policy : φ) :
    ∃ d, match s.popWithPolicy policy with
    | (none, s', _) => Exhausted s s' d
    | (some e, s', _) => Popped s s' d e ∧ ∃ entries, Chosen s' policy e entries := by
  obtain ⟨d, h⟩ := popLive_took s.events.len s le_rfl
  unfold popWithPolicy
  generalize popLive s.events.len s = q at h
  rcases q with ⟨_ | first, s₁⟩
  · exact ⟨d, h.1, h.2⟩
  obtain ⟨d', f, hf, ht, -, htime, hlater⟩ := collectFrontier_took first.time s₁.events.len s₁ [first] le_rfl
    fun x hx => time_le_of_head h.2 hx
  simp only
  generalize collectFrontier first.time s₁.events.len s₁ [first] = q at hf ht hlater
  obtain ⟨entries, s₂⟩ := q
  simp only at hf ht hlater ⊢
  have hne : entries ≠ [] := by rw [hf]; simp
  have hi := chooseIndex_lt policy first.time hne
  have hm := entries_time hf htime
  refine ⟨d ++ d', ?_⟩
  rw [List.getElem?_eq_getElem hi]
  have hc := hm _ (List.getElem_mem hi)
  have hperm := Vec.swapRemove_perm (List.getElem?_eq_getElem hi)
  have hback : ([first] ++ f).Perm ([entries[(chooseIndex policy first.time entries).1]] ++
      Vec.swapRemove entries (chooseIndex policy first.time entries).1) := by rw [← hf]; exact hperm.symm
  have htook := (h.1.trans ht).pushAll hback
  have hleft :
      ∀ x ∈ (s₂.events.pushAll (Vec.swapRemove entries (chooseIndex policy first.time entries).1)).toList,
      x ∈ entries ∨ first.time < x.time := by
    intro x hx
    rcases BinaryHeap.mem_pushAll.mp hx with hx | hx
    · exact .inl (hperm.mem_iff.mp (List.mem_cons_of_mem _ hx))
    · exact .inr (hlater x hx)
  refine ⟨⟨?_, hc.symm, fun x hx => ?_⟩, entries, ?_, fun x hx => (hm x hx).trans hc.symm, fun x hx => ?_⟩
  · have hc : s₂.clock = s.clock := ht.clock.trans h.1.clock
    simp only [← hc]
    exact htook
  · rw [hc]
    rcases hleft x hx with hx | hx
    · exact (hm x hx).ge
    · exact hx.le
  · rw [hc]; exact List.getElem?_eq_getElem hi
  · rw [hc]; exact hleft x hx

/-- Whatever the policy, the event popped is of the time of the first that is not cancelled. -/
theorem map_time_popWithPolicy [EventFrontierPolicy φ] (s : Scheduler ε τ ρ) (policy : φ) :
    (s.popWithPolicy policy).1.map EventEntry.time =
      (firstLive s.events.toList s.cancelledTasks).map EventEntry.time := by
  rw [← fst_popLive _ s le_rfl]
  obtain ⟨d, h⟩ := popLive_took s.events.len s le_rfl
  unfold popWithPolicy
  generalize popLive s.events.len s = q at h
  rcases q with ⟨_ | first, s₁⟩
  · rfl
  obtain ⟨d', f, hf, -, -, htime, -⟩ := collectFrontier_took first.time s₁.events.len s₁ [first] le_rfl
    fun x hx => time_le_of_head h.2 hx
  simp only
  generalize (collectFrontier first.time s₁.events.len s₁ [first]).1 = entries at hf
  have hne : entries ≠ [] := by rw [hf]; simp
  have hi := chooseIndex_lt policy first.time hne
  rw [List.getElem?_eq_getElem hi, Option.map_some, Option.map_some, Option.some.injEq]
  exact entries_time hf htime _ (List.getElem_mem hi)

end DesCartes.Scheduler
