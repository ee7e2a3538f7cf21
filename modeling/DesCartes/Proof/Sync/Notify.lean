import DesCartes.Framework.Machine
import DesCartes.Impl.Sync.Notify

/-!
# Progress of `Notify`

`run_notified`: as long as `notify_one` does not wake a waker that no future waits with any more,
and no future is dropped between its wake and its poll (`Considerate`), a permit for which a future
waits has woken one.

Futures leave their wakers behind when they are dropped, so the condition cannot be left out
(`staleNotified_lost`). What carries the proof is a count: there are as many futures that have been
woken as there are permits, or no future waits that has not been woken (`Covered`).
-/

namespace DesCartes.Notify

variable {ω : Type} [DecidableEq ω]

/-- The future waits, and has been woken since its last poll. -/
def Notified.Ready (f : Notified ω) : Prop := f.waker ≠ none ∧ f.woken = true

omit [DecidableEq ω] in
instance (f : Notified ω) : Decidable f.Ready := inferInstanceAs (Decidable (_ ∧ _))

/-- The future `i` is alive and its last poll was pending. -/
def Waits (n : Notify ω) (i : Nat) : Prop := ∃ f, n.futures.get i = some f ∧ f.waker ≠ none

/-- The future `i` waits, and has been woken since its last poll. -/
def Woken (n : Notify ω) (i : Nat) : Prop := ∃ f, n.futures.get i = some f ∧ f.Ready

/-- When there is a permit and a future waits for it, one that waits has been woken. -/
def Progress (n : Notify ω) : Prop := 0 < n.state.permits → (∃ i, n.Waits i) → ∃ i, n.Woken i

/-- The number of futures that wait and have been woken. -/
def wokenCount (n : Notify ω) : Nat := n.futures.total fun f => if f.Ready then 1 else 0

/-- Every future that waits has been woken. -/
def AllWoken (n : Notify ω) : Prop := ∀ i, n.Waits i → n.Woken i

/-- What a step must not do to the futures that wait: `notify_one` does not wake a waker with which
no future waits that it could wake, and a future that was woken is not dropped, unless more have
been woken than there are permits or all have. -/
def Considerate (n : Notify ω) : Op ω → Prop
  | .notifyOne => ∀ w waiters, n.state.waiters = w :: waiters →
      (∃ i, n.futures.get i = some ⟨some w, false⟩) ∨ n.state.permits < n.wokenCount ∨ n.AllWoken
  | .dropFuture i => n.Woken i → n.state.permits < n.wokenCount ∨ n.AllWoken
  | _ => True

/-- Every future that waits and was not woken has an entry. -/
def Entered (n : Notify ω) : Prop := ∀ i w, n.futures.get i = some ⟨some w, false⟩ → w ∈ n.state.waiters

/-- The permits are covered by futures that have been woken, or all have. -/
def Covered (n : Notify ω) : Prop := n.state.permits ≤ n.wokenCount ∨ n.AllWoken

section
variable {n n' : Notify ω}

omit [DecidableEq ω] in
theorem Covered.progress (h : n.Covered) : n.Progress := by
  rintro hp ⟨i, hi⟩
  rcases h with h | h
  · obtain ⟨j, f, hj, hf⟩ := Table.exists_of_total_ne_zero (t := n.futures) (hp.trans_le h).ne'
    refine ⟨j, f, hj, ?_⟩
    by_contra hr
    exact hf (if_neg hr)
  · exact ⟨i, h i hi⟩

omit [DecidableEq ω] in
/-- Fewer futures. -/
theorem AllWoken.of_get (h : n.AllWoken)
    (hget : ∀ i f, n'.futures.get i = some f → n.futures.get i = some f ∨ f.waker = none) :
    n'.AllWoken := by
  rintro i ⟨f, hi, hw⟩
  rcases hget i f hi with hi' | hnone
  · obtain ⟨g, hg, hr⟩ := h i ⟨f, hi', hw⟩
    cases hi'.symm.trans hg
    exact ⟨f, hi, hr⟩
  · exact absurd hnone hw

omit [DecidableEq ω] in
/-- Where no future waits without a wake, all have been woken. -/
theorem allWoken_of_forall (h : ∀ i w, n.futures.get i ≠ some ⟨some w, false⟩) : n.AllWoken := by
  rintro i ⟨⟨waker, woken⟩, hi, hw⟩
  cases waker with
  | none => exact absurd rfl hw
  | some w =>
    cases woken with
    | false => exact absurd hi (h i w)
    | true => exact ⟨_, hi, hw, rfl⟩

/-! ## Wakes -/

theorem get_wake {wakers : List ω} {i : Nat} {f : Notified ω} : (n.wake wakers).futures.get i = some f ↔
    ∃ f₀, n.futures.get i = some f₀ ∧
    (if ∃ w ∈ wakers, f₀.waker = some w then { f₀ with woken := true } else f₀) = f :=
  Table.get_map_eq_some

/-- What waits after a wake and was not woken did so before, with another waker. -/
theorem waits_of_wake {wakers : List ω} {i : Nat} {w : ω}
    (h : (n.wake wakers).futures.get i = some ⟨some w, false⟩) :
    n.futures.get i = some ⟨some w, false⟩ ∧ w ∉ wakers := by
  obtain ⟨f, hi, hf⟩ := get_wake.mp h
  split at hf
  · cases congrArg Notified.woken hf
  · rename_i hno
    subst hf
    exact ⟨hi, fun hw => hno ⟨w, hw, rfl⟩⟩

theorem AllWoken.wake (h : n.AllWoken) (wakers : List ω) : (n.wake wakers).AllWoken := by
  refine allWoken_of_forall fun i w hi => ?_
  obtain ⟨f, hf, hr⟩ := h i ⟨_, (waits_of_wake hi).1, by simp⟩
  cases (waits_of_wake hi).1.symm.trans hf
  cases hr.2

/-- A wake leaves a future that was woken so. -/
theorem ready_wake {wakers : List ω} {f : Notified ω} (h : f.Ready) :
    Notified.Ready (if ∃ w ∈ wakers, f.waker = some w then { f with woken := true } else f) := by
  split
  · exact ⟨h.1, rfl⟩
  · exact h

theorem Waits.wake {i : Nat} (h : n.Waits i) (wakers : List ω) : (n.wake wakers).Waits i := by
  obtain ⟨f, hi, hwaker⟩ := h
  refine ⟨_, get_wake.mpr ⟨f, hi, rfl⟩, ?_⟩
  split
  · exact hwaker
  · exact hwaker

theorem Woken.wake {i : Nat} (h : n.Woken i) (wakers : List ω) : (n.wake wakers).Woken i := by
  obtain ⟨f, hi, hready⟩ := h
  exact ⟨_, get_wake.mpr ⟨f, hi, rfl⟩, ready_wake hready⟩

theorem wokenCount_le_wake (n : Notify ω) (wakers : List ω) : n.wokenCount ≤ (n.wake wakers).wokenCount := by
  simp only [wokenCount, wake, Table.total_map]
  refine Table.total_mono fun j f _ => ?_
  by_cases hr : f.Ready
  · rw [if_pos hr, if_pos (ready_wake hr)]
  · rw [if_neg hr]
    exact Nat.zero_le _

/-- The wake of a waker with which a future waits that was not woken. -/
theorem wokenCount_lt_wake {i : Nat} {w : ω} (hi : n.futures.get i = some ⟨some w, false⟩) :
    n.wokenCount < (n.wake [w]).wokenCount := by
  simp only [wokenCount, wake, Table.total_map]
  refine Table.total_lt (fun j f _ => ?_) hi ?_
  · by_cases hr : f.Ready
    · rw [if_pos hr, if_pos (ready_wake hr)]
    · rw [if_neg hr]
      exact Nat.zero_le _
  · simp [Notified.Ready]

/-! ## Entries -/

omit [DecidableEq ω] in
theorem entered_new : (new : Notify ω).Entered := nofun

theorem Entered.wake (h : n.Entered) (wakers : List ω) : (n.wake wakers).Entered :=
  fun i w hi => h i w (waits_of_wake hi).1

/-- All the futures that wait are woken. -/
theorem Entered.notifyWaiters (h : n.Entered) (i : Nat) (w : ω) :
    n.notifyWaiters.futures.get i ≠ some ⟨some w, false⟩ :=
  fun hi => (waits_of_wake hi).2 (h i w (waits_of_wake hi).1)

omit [DecidableEq ω] in
theorem Entered.erase (h : n.Entered) {s : State ω} (hs : s.waiters = n.state.waiters) (i : Nat) :
    Entered ⟨s, n.futures.erase i⟩ := by
  intro j w hj
  rw [hs]
  exact h j w (Table.get_erase_eq_some.mp hj).2

omit [DecidableEq ω] in
theorem Entered.insert (h : n.Entered) : Entered { n with futures := n.futures.insert ⟨none, false⟩ } := by
  intro j w hj
  rcases Table.get_insert_eq_some.mp hj with ⟨-, hnew⟩ | hj
  · cases hnew
  · exact h j w hj

/-- The future `i` has taken a permit. -/
def taken (n : Notify ω) (i : Nat) : Notify ω := ⟨{ n.state with permits := n.state.permits - 1 }, n.futures.erase i⟩

/-- The future `i` has found no permit, and has left its waker. -/
def queued (n : Notify ω) (i : Nat) (waker : ω) : Notify ω :=
  ⟨{ n.state with waiters := n.state.waiters ++ [waker] }, n.futures.set i ⟨some waker, false⟩⟩

omit [DecidableEq ω] in
theorem poll_of_pos (h : 0 < n.state.permits) (i : Nat) (waker : ω) :
    n.poll i waker = (n.taken i, .ready ()) :=
  if_pos h

omit [DecidableEq ω] in
theorem poll_of_zero (h : n.state.permits = 0) (i : Nat) (waker : ω) :
    n.poll i waker = (n.queued i waker, .pending) :=
  if_neg (by omega)

omit [DecidableEq ω] in
theorem Entered.taken (h : n.Entered) (i : Nat) : (n.taken i).Entered := h.erase rfl i

omit [DecidableEq ω] in
theorem Entered.queued (h : n.Entered) {i : Nat} {f : Notified ω} (hi : n.futures.get i = some f)
    (waker : ω) :
    (n.queued i waker).Entered := by
  intro j w hj
  rcases (Table.get_set_eq_some hi).mp hj with ⟨-, e⟩ | ⟨-, hj⟩
  · cases e
    exact List.mem_append_right _ (List.mem_singleton_self _)
  · exact List.mem_append_left _ (h j w hj)

/-! ## Steps -/

/-- A future that waits has an entry or has been woken, and the permits are covered. -/
structure Kept (n : Notify ω) : Prop where
  entered : n.Entered
  covered : n.Covered

omit [DecidableEq ω] in
theorem wokenCount_erase {i : Nat} {f : Notified ω} (hi : n.futures.get i = some f) :
    (n.futures.erase i).total (fun f => if f.Ready then 1 else 0) + (if f.Ready then 1 else 0) =
      n.wokenCount :=
  Table.total_erase hi

omit [DecidableEq ω] in
theorem AllWoken.erase (h : n.AllWoken) {s : State ω} (i : Nat) : AllWoken ⟨s, n.futures.erase i⟩ :=
  h.of_get fun _ _ hj => .inl (Table.get_erase_eq_some.mp hj).2

/-- One more permit, and a wake. -/
theorem Covered.wake (h : n.Covered) {s : State ω} {w : ω} (hs : s.permits ≤ n.state.permits + 1)
    (hc : (∃ i, n.futures.get i = some ⟨some w, false⟩) ∨ n.state.permits < n.wokenCount ∨ n.AllWoken) :
    Covered (wake ⟨s, n.futures⟩ [w]) := by
  have hall : n.AllWoken → AllWoken (Notify.wake ⟨s, n.futures⟩ [w]) :=
    fun hall => AllWoken.wake (n := ⟨s, n.futures⟩) hall [w]
  have hpermits : (Notify.wake ⟨s, n.futures⟩ [w]).state.permits = s.permits := rfl
  rcases hc with ⟨i, hi⟩ | hlt | hn
  · rcases h with hcov | hn
    · have hlt : n.wokenCount < (Notify.wake ⟨s, n.futures⟩ [w]).wokenCount :=
        wokenCount_lt_wake (n := ⟨s, n.futures⟩) hi
      left
      omega
    · exact .inr (hall hn)
  · have hle : n.wokenCount ≤ (Notify.wake ⟨s, n.futures⟩ [w]).wokenCount :=
      wokenCount_le_wake ⟨s, n.futures⟩ [w]
    left
    omega
  · exact .inr (hall hn)

theorem Kept.notifyOne (h : n.Kept) (hc : n.Considerate .notifyOne) : n.notifyOne.Kept := by
  simp only [Notify.notifyOne]
  split
  · rename_i hw
    refine ⟨h.entered, .inr (allWoken_of_forall fun i w hi => ?_)⟩
    have := h.entered i w hi
    rw [hw] at this
    cases this
  · rename_i w waiters hw
    refine ⟨fun i w' hi => ?_, h.covered.wake (Nat.min_le_left _ _) (hc w waiters hw)⟩
    obtain ⟨hi, hne⟩ := waits_of_wake hi
    have := h.entered i w' hi
    rw [hw] at this
    exact (List.mem_cons.mp this).resolve_left fun e => hne (List.mem_singleton.mpr e)

theorem Kept.notifyWaiters (h : n.Kept) : n.notifyWaiters.Kept := by
  have hnone := h.entered.notifyWaiters
  exact ⟨fun i w hi => absurd hi (hnone i w), .inr (allWoken_of_forall hnone)⟩

omit [DecidableEq ω] in
theorem Kept.poll (h : n.Kept) {i : Nat} {f : Notified ω} (hi : n.futures.get i = some f) (waker : ω) :
    (n.poll i waker).1.Kept := by
  rcases Nat.eq_zero_or_pos n.state.permits with hzero | hpos
  · rw [poll_of_zero hzero]
    refine ⟨h.entered.queued hi waker, .inl ?_⟩
    simp only [queued, hzero]
    exact Nat.zero_le _
  · rw [poll_of_pos hpos]
    refine ⟨h.entered.taken i, ?_⟩
    rcases h.covered with hcov | hall
    · left
      have hcount := wokenCount_erase hi
      simp only [wokenCount, taken]
      split at hcount <;> omega
    · exact .inr (hall.erase i)

omit [DecidableEq ω] in
theorem Kept.dropFuture (h : n.Kept) {i : Nat}
    (hc : n.Woken i → n.state.permits < n.wokenCount ∨ n.AllWoken) :
    ({ n with futures := n.futures.erase i } : Notify ω).Kept := by
  refine ⟨h.entered.erase rfl i, ?_⟩
  have hdone : n.AllWoken → Covered { n with futures := n.futures.erase i } := fun hall => .inr (hall.erase i)
  cases hi : n.futures.get i with
  | none =>
    have hsame : n.futures.erase i = n.futures := by
      refine Table.ext (funext fun j => ?_) rfl
      simp only [Table.erase]
      split
      · rename_i e
        rw [e, hi]
      · rfl
    rw [hsame]
    exact h.covered
  | some f =>
    have hcount := wokenCount_erase hi
    by_cases hr : f.Ready
    · rw [if_pos hr] at hcount
      rcases hc ⟨f, hi, hr⟩ with hlt | hall
      · left
        simp only [wokenCount]
        omega
      · exact hdone hall
    · rw [if_neg hr] at hcount
      rcases h.covered with hcov | hall
      · left
        simp only [wokenCount]
        omega
      · exact hdone hall

theorem Kept.perform (h : n.Kept) {op : Op ω} (hc : n.Considerate op) : (n.perform op).1.Kept := by
  cases op with
  | notifyOne => exact h.notifyOne hc
  | notifyWaiters => exact h.notifyWaiters
  | notified =>
    have hget : ∀ j g, (n.futures.insert (⟨none, false⟩ : Notified ω)).get j = some g →
        n.futures.get j = some g ∨ g.waker = none := by
      intro j g hj
      rcases Table.get_insert_eq_some.mp hj with ⟨-, rfl⟩ | hj
      · exact .inr rfl
      · exact .inl hj
    refine ⟨h.entered.insert, h.covered.imp (fun hcov => ?_) fun hall => hall.of_get hget⟩
    simpa [wokenCount, Notify.perform, Notified.Ready] using hcov
  | poll i waker =>
    simp only [Notify.perform]
    split
    · exact h
    · rename_i hi
      exact h.poll hi waker
  | dropFuture i => exact h.dropFuture hc
  | wake waker =>
    refine ⟨h.entered.wake _, h.covered.imp (fun hcov => ?_) fun hall => hall.wake _⟩
    exact hcov.trans (wokenCount_le_wake n _)

end

/-! ## Runs -/

/-- In a run whose steps are all considerate, a permit for which a future waits has woken one. -/
theorem run_notified {n : Notify ω} {ops : List (Op ω)} {answers : List (Option (Poll Unit))}
    (h : Machine.run step .new ops = some (n, answers)) (hC : Machine.Along Considerate step .new ops) : n.Progress := by
  have h₀ : (Notify.new : Notify ω).Kept := ⟨entered_new, .inl (Nat.zero_le _)⟩
  refine (hC.invariant (P := Kept) (fun n op n' ans hn hc hs => ?_) h₀ h).covered.progress
  have hp := hn.perform hc
  rw [Option.some.inj hs] at hp
  exact hp

/-- Two futures wait. -/
def waiting : List (Op Nat) := [.notified, .poll 0 1, .notified, .poll 1 2]

theorem run_notified_first : ∃ n answers, Machine.run step (.new : Notify Nat) (waiting ++ [.notifyOne]) = some (n, answers) ∧
    n.state.permits = 1 ∧ n.Waits 1 ∧ n.Progress := by
  have h : Machine.run step (.new : Notify Nat) (waiting ++ [.notifyOne]) = some (_, _) := rfl
  refine ⟨_, _, h, rfl, ⟨_, rfl, by simp⟩, run_notified h ?_⟩
  refine ⟨trivial, fun n _ e => ?_⟩
  cases e
  refine ⟨trivial, fun n _ e => ?_⟩
  cases e
  refine ⟨trivial, fun n _ e => ?_⟩
  cases e
  refine ⟨trivial, fun n _ e => ?_⟩
  cases e
  -- the first waker is that of the first future
  exact ⟨fun w waiters hw => (by cases hw; exact .inl ⟨0, rfl⟩), fun _ _ _ => trivial⟩

/-- When the first future is dropped before the notification, its waker is woken, and not the future
that waits. -/
theorem staleNotified_lost : ∃ n answers,
    Machine.run step (.new : Notify Nat) (waiting ++ [.dropFuture 0, .notifyOne]) = some (n, answers) ∧ ¬ n.Progress := by
  have h : Machine.run step (.new : Notify Nat) (waiting ++ [.dropFuture 0, .notifyOne]) = some (_, _) := rfl
  refine ⟨_, _, h, fun hp => ?_⟩
  obtain ⟨i, f, hi, -, hf⟩ := hp (by decide) ⟨1, _, rfl, by simp⟩
  have hlt : i < 2 := Table.lt_next hi
  obtain rfl | rfl : i = 0 ∨ i = 1 := by omega
  · cases hi
  · cases hi
    cases hf

end DesCartes.Notify
