import DesCartes.Framework.Trace
import DesCartes.Proof.Simulation.Step

/-!
# The timers of the runtime

`Ticking w` says that the deadlines have tasks, that the cached deadline is the first one, and that a
`TimerTick` is in the heap for it. The cache never says more than that (`Cached`), so that
`scheduleNextTimerTick` may trust it (`Cached.scheduleNextTimerTick`). Since events are processed in
the order of their times, the clock cannot pass the first deadline (`Ticking.opened_le`).

`Timed w` relates the timers to what was recorded: the timers are the registrations that are open,
those after which no wake and no cancellation was recorded, and none of them is overdue.

* `mem_timersAt_dispatch`: what each event of the runtime does to the timers;
* `timed_move`: every move keeps both;
* `run_timers`: what holds in every run.
-/

namespace DesCartes

open AsyncRuntime

/-- Records that cancel a registration of the task `t` at `D`, or the task. -/
def Obs.Cancels (t : AsyncRuntime.TaskId) (D : SimTime) : Obs → Prop
  | .processed (some (.cancel t')) _ => t' = t
  | .processed (some (.cancelTimer t' D')) _ => t' = t ∧ D' = D
  | _ => False

/-- Records that end a registration of the task `t` at `D`: it is woken, or it is cancelled. -/
def Obs.Ends (t : AsyncRuntime.TaskId) (D : SimTime) : Obs → Prop
  | .woken t' D' _ => t' = t ∧ D' = D
  | o => o.Cancels t D

theorem Obs.Quiet.not_ends {o : Obs} (h : o.Quiet) (t : AsyncRuntime.TaskId) (D : SimTime) :
    ¬ o.Ends t D := by
  cases o <;> first | exact h.elim | exact id

/-- The task `t` was registered at `D` when the clock was `r`, and nothing has ended it. -/
def OpenTimer (tr : List Obs) (t : AsyncRuntime.TaskId) (D r : SimTime) : Prop :=
  Trace.Open (.registered t D r) (Obs.Ends t D) tr

namespace AsyncRuntime.DesRuntime

variable {π : Type} {rt : DesRuntime π} {t t' : TaskId} {D D' : SimTime} {l l' : List TaskId}

theorem mem_timersAt : t ∈ rt.timersAt D ↔ ∃ tasks, (D, tasks) ∈ rt.timers.entries ∧ t ∈ tasks := by
  rw [timersAt]
  cases h : rt.timers.get? D with
  | none =>
    have := BTreeMap.get?_eq_none.mp h
    simp [this]
  | some tasks =>
    have := BTreeMap.get?_eq_some.mp h
    refine ⟨fun ht => ⟨tasks, this, ht⟩, fun ⟨tasks', h', ht⟩ => ?_⟩
    rw [BTreeMap.eq_of_mem this h']
    exact ht

theorem retainNot_eq_some : retainNot t l = some l' ↔ l' = l.filter (· ≠ t) ∧ l' ≠ [] := by
  unfold retainNot
  split
  · rename_i h
    rw [h]
    simp only [reduceCtorEq, ne_eq, false_iff, not_and, not_not]
    exact id
  · rename_i h
    rw [Option.some.injEq]
    exact ⟨fun e => ⟨e.symm, e ▸ h⟩, fun e => e.1.symm⟩

theorem retainNot_eq_none : retainNot t l = none ↔ ∀ t' ∈ l, t' = t := by
  unfold retainNot
  split
  · rename_i h
    simp only [true_iff]
    intro t' ht'
    by_contra hne
    exact List.not_mem_nil (h ▸ List.mem_filter.mpr ⟨ht', by simpa using hne⟩)
  · rename_i h
    simp only [reduceCtorEq, false_iff]
    refine fun hall => h (List.filter_eq_nil_iff.mpr fun t' ht' => ?_)
    simp [hall t' ht']

theorem mem_timersAt_pushTimer :
    t' ∈ (rt.pushTimer t D).timersAt D' ↔ t' ∈ rt.timersAt D' ∨ t' = t ∧ D' = D := by
  rw [mem_timersAt, mem_timersAt]
  simp only [pushTimer, BTreeMap.mem_insert, Prod.mk.injEq]
  by_cases e : D' = D
  · subst e
    simp only [true_and, ne_eq, not_true_eq_false, and_false, or_false, and_true, exists_eq_left,
      List.mem_append,
      List.mem_singleton, mem_timersAt]
  · simp [e]

theorem mem_timersAt_removeTimers : t' ∈ (rt.removeTimers t).timersAt D ↔ t' ∈ rt.timersAt D ∧ t' ≠ t := by
  rw [mem_timersAt, mem_timersAt]
  simp only [removeTimers, BTreeMap.mem_filterMapValues, retainNot_eq_some]
  constructor
  · rintro ⟨_, ⟨u, hu, rfl, -⟩, ht⟩
    obtain ⟨hm, hne⟩ := List.mem_filter.mp ht
    exact ⟨⟨u, hu, hm⟩, by simpa using hne⟩
  · rintro ⟨⟨u, hu, hm⟩, hne⟩
    have hf : t' ∈ u.filter (· ≠ t) := List.mem_filter.mpr ⟨hm, by simpa using hne⟩
    exact ⟨_, ⟨u, hu, rfl, List.ne_nil_of_mem hf⟩, hf⟩

end AsyncRuntime.DesRuntime

namespace World

variable {ν π φ : Type}

theorem timersAt_congr {rt rt' : DesRuntime π} (h : rt'.timers = rt.timers) : rt'.timersAt = rt.timersAt := by
  funext D
  rw [DesRuntime.timersAt, DesRuntime.timersAt, h]

/-! ## The cached deadline -/

/-- The deadlines have tasks, the cached one a `TimerTick` in the heap, and no event is in the past. -/
structure Cached (w : World ν π φ) : Prop where
  filled : ∀ e ∈ w.runtime.timers.entries, e.2 ≠ []
  tick : ∀ D, w.runtime.nextTimerDeadline = some D →
    ∃ e ∈ w.heap, runtimeEvent? e = some .timerTick ∧ e.time ≤ max D w.now
  future : ∀ e ∈ w.heap, w.now ≤ e.time

/-- The cached deadline is the first one. -/
structure Ticking (w : World ν π φ) : Prop extends Cached w where
  deadline : w.runtime.nextTimerDeadline = w.runtime.timers.firstKey?

theorem Cached.grows {w w' : World ν π φ} (h : Cached w) (hg : Grows w w')
    (hf : ∀ e ∈ w'.runtime.timers.entries, e.2 ≠ [])
    (hd : w'.runtime.nextTimerDeadline = w.runtime.nextTimerDeadline) : Cached w' := by
  refine ⟨hf, fun D hD => ?_, Future.adds h.future hg.scheduler⟩
  obtain ⟨e, he, ht, hle⟩ := h.tick D (hd ▸ hD)
  exact ⟨e, hg.held e he, ht, hg.now ▸ hle⟩

theorem Ticking.frame {w w' : World ν π φ} (h : Ticking w) (hf : Frame w w') : Ticking w' where
  toCached := h.toCached.grows hf.toGrows (by rw [hf.timers]; exact h.filled) hf.deadline
  deadline := by rw [hf.deadline, hf.timers, h.deadline]

/-- The cache may be trusted. -/
theorem Cached.scheduleNextTimerTick {w : World ν π φ} (h : Cached w) : Ticking w.scheduleNextTimerTick := by
  have hg := grows_scheduleNextTimerTick w
  have hfilled : ∀ e ∈ w.scheduleNextTimerTick.runtime.timers.entries, e.2 ≠ [] := by
    rw [runtime_scheduleNextTimerTick]
    exact h.filled
  have hdeadline : w.scheduleNextTimerTick.runtime.nextTimerDeadline =
      w.scheduleNextTimerTick.runtime.timers.firstKey? := by
    rw [runtime_scheduleNextTimerTick]
  by_cases he : w.runtime.timers.firstKey? = w.runtime.nextTimerDeadline
  · exact ⟨h.grows hg hfilled (by rw [runtime_scheduleNextTimerTick]; exact he), hdeadline⟩
  · refine ⟨⟨hfilled, fun D hD => ?_, Future.adds h.future hg.scheduler⟩, hdeadline⟩
    -- A new tick is scheduled, at the deadline or now.
    rw [runtime_scheduleNextTimerTick] at hD
    rw [hg.now]
    simp only at hD
    rw [hD] at he
    refine ⟨Message.entry w.key (w.scheduler.nextEventId + 1) (w.now +
        if D ≤ w.now then .zero else .fromDuration (D.durationSince w.now)) (.runtime .timerTick), ?_,
      by simp [Message.runtime?], ?_⟩
    · simp only [World.scheduleNextTimerTick, hD, if_neg he]
      exact (mem_heap_schedule ..).mpr (.inl rfl)
    · rw [Message.time_entry]
      split
      · rw [SimTime.add_zero]
        exact le_max_right _ _
      · rename_i hlt
        rw [SimTime.add_durationSince (not_le.mp hlt).le]
        exact le_max_left _ _

/-- The clock does not pass a deadline whose tick is in the heap. -/
theorem Ticking.opened_le {w w₁ : World ν π φ} {e : EventEntry (Payload ν)} (h : Ticking w)
    (ho : Opened w w₁ e) {D : SimTime} {tasks : List AsyncRuntime.TaskId}
    (hD : (D, tasks) ∈ w.runtime.timers.entries) :
    e.time ≤ max D w.now := by
  cases hk : w.runtime.timers.firstKey? with
  | none =>
    rw [BTreeMap.firstKey?_eq_none.mp hk] at hD
    cases hD
  | some D₀ =>
    obtain ⟨x, hx, ht, hle⟩ := h.tick D₀ (h.deadline.trans hk)
    have hD₀ : D₀ ≤ D := (BTreeMap.firstKey?_eq_some.mp hk).2 _ hD
    have hex : e.time ≤ x.time := by
      rcases ho.held x hx (by rw [ht]; simp) with rfl | hx
      · exact le_rfl
      · exact (ho.sub x hx).2
    exact hex.trans (hle.trans (max_le_max hD₀ le_rfl))

/-- Opening an event keeps the pending tick, unless it is that one. -/
theorem Ticking.opened {w w₁ : World ν π φ} {e : EventEntry (Payload ν)} (h : Ticking w) (ho : Opened w w₁ e)
    (he : runtimeEvent? e ≠ some .timerTick) : Ticking w₁ := by
  have hrt : w₁.runtime = w.runtime := by rw [ho.keep]
  refine ⟨⟨by rw [hrt]; exact h.filled, fun D hD => ?_, ho.future⟩, by rw [hrt]; exact h.deadline⟩
  rw [hrt] at hD
  obtain ⟨x, hx, ht, hle⟩ := h.tick D hD
  refine ⟨x, (ho.held x hx (by rw [ht]; simp)).resolve_left fun e' => he (e' ▸ ht), ht, ?_⟩
  rw [ho.now]
  exact hle.trans (max_le_max le_rfl (h.future e ho.mem))

/-! ## Registrations -/

/-- The timers are the open registrations, none of which is overdue, and every wake came when the
clock was at the later one of the deadline and the time of the registration. -/
structure Timed (w : World ν π φ) : Prop where
  timers : ∀ t D, t ∈ w.runtime.timersAt D ↔ ∃ r, OpenTimer w.trace t D r
  due : ∀ t D r, OpenTimer w.trace t D r → r ≤ w.now ∧ w.now ≤ max D r
  woken : Trace.Each (fun tr o => ∀ t D n r, o = .woken t D n → OpenTimer tr t D r → n = max D r) w.trace

/-- Records that register no timer only end registrations, here those for which `ends` holds. -/
theorem Timed.ended {w w' : World ν π φ} (h : Timed w) {q : List Obs} (hq : w'.trace = w.trace ++ q)
    (hr : ∀ t D r, .registered t D r ∉ q) (ends : AsyncRuntime.TaskId → SimTime → Prop)
    (he : ∀ t D, t ∈ w.runtime.timersAt D → ((∀ o ∈ q, ¬ o.Ends t D) ↔ ¬ ends t D))
    (ht : ∀ t D, t ∈ w'.runtime.timersAt D ↔ t ∈ w.runtime.timersAt D ∧ ¬ ends t D)
    (hnow : w.now ≤ w'.now) (hdue : ∀ t D, t ∈ w.runtime.timersAt D → w'.now ≤ max D w.now)
    (hw : ∀ t D n, .woken t D n ∈ q → n = w.now ∧ D ≤ w.now) : Timed w' := by
  have hopen : ∀ t D r, OpenTimer w'.trace t D r ↔ OpenTimer w.trace t D r ∧ ∀ o ∈ q, ¬ o.Ends t D := by
    intro t D r
    rw [hq]
    exact Trace.open_append_of_notMem (hr t D r)
  refine ⟨fun t D => ?_, fun t D r ho => ?_, ?_⟩
  · simp only [ht, hopen, exists_and_right, ← h.timers]
    exact and_congr_right fun hm => (he t D hm).symm
  · obtain ⟨ho, -⟩ := (hopen t D r).mp ho
    obtain ⟨h₁, h₂⟩ := h.due t D r ho
    refine ⟨h₁.trans hnow, (hdue t D ((h.timers t D).mpr ⟨r, ho⟩)).trans ?_⟩
    exact max_le (le_max_left _ _) h₂
  · rw [hq]
    refine h.woken.append ?_
    rintro pre o post rfl t D n r rfl ho
    obtain ⟨rfl, hle⟩ := hw t D n (List.mem_append_right _ List.mem_cons_self)
    have hpre : .registered t D r ∉ pre := fun hm => hr t D r (List.mem_append_left _ hm)
    obtain ⟨h₁, h₂⟩ := h.due t D r ((Trace.open_append_of_notMem hpre).mp ho).1
    exact le_antisymm h₂ (max_le hle h₁)

/-- It is about the trace, the clock and the timers. -/
theorem Timed.quiet {w w' : World ν π φ} (h : Timed w) {q : List Obs} (hq : w'.trace = w.trace ++ q)
    (hquiet : ∀ o ∈ q, o.Quiet) (ht : w'.runtime.timers = w.runtime.timers)
    (hnow : w'.now = w.now) : Timed w' := by
  refine h.ended hq (fun t D r hm => (hquiet _ hm).elim) (fun _ _ => False) (fun t D _ => ?_) (fun t D => ?_)
    hnow.ge (fun t D _ => ?_) (fun t D n hm => (hquiet _ hm).elim)
  · simp only [not_false_eq_true, iff_true]
    exact fun o ho => (hquiet o ho).not_ends t D
  · rw [timersAt_congr ht, and_iff_left not_false]
  · rw [hnow]
    exact le_max_right _ _

theorem Timed.frame {w w' : World ν π φ} (h : Timed w) (hf : Frame w w') : Timed w' := by
  obtain ⟨q, hq, hquiet⟩ := hf.quiet
  exact h.quiet hq hquiet hf.timers hf.now

theorem Timed.scheduleNextTimerTick {w : World ν π φ} (h : Timed w) : Timed w.scheduleNextTimerTick :=
  h.quiet (q := []) (by rw [trace_scheduleNextTimerTick, List.append_nil]) (by simp)
    (by rw [runtime_scheduleNextTimerTick]) (grows_scheduleNextTimerTick w).now

/-- A timer is added. -/
theorem Timed.registered {w : World ν π φ} (h : Timed w) (t : AsyncRuntime.TaskId) (D : SimTime) :
    Timed ((w.setRuntime (w.runtime.pushTimer t D)).log (.registered t D w.now)) := by
  have hopen : ∀ t' D' r, OpenTimer (w.trace ++ [Obs.registered t D w.now]) t' D' r ↔
      OpenTimer w.trace t' D' r ∨ t' = t ∧ D' = D ∧ r = w.now := by
    intro t' D' r
    rw [OpenTimer, Trace.open_concat, Obs.registered.injEq]
    simp only [Obs.Ends, Obs.Cancels, not_false_eq_true, and_true]
    exact or_congr_right ⟨fun ⟨a, b, c⟩ => ⟨a.symm, b.symm, c.symm⟩,
      fun ⟨a, b, c⟩ => ⟨a.symm, b.symm, c.symm⟩⟩
  refine ⟨fun t' D' => ?_, fun t' D' r ho => ?_, ?_⟩
  · show t' ∈ (w.runtime.pushTimer t D).timersAt D' ↔ ∃ r,
      OpenTimer (w.trace ++ [Obs.registered t D w.now]) t' D' r
    simp only [DesRuntime.mem_timersAt_pushTimer, hopen, exists_or, ← h.timers, exists_and_left,
      exists_eq, and_true]
  · show r ≤ w.now ∧ w.now ≤ max D' r
    rcases (hopen t' D' r).mp ho with ho | ⟨-, -, rfl⟩
    · exact h.due t' D' r ho
    · exact ⟨le_rfl, le_max_right _ _⟩
  · refine h.woken.append (.of_mem fun pre o ho t' D' n r e => ?_)
    rw [List.mem_singleton.mp ho] at e
    cases e

/-! ## Due timers -/

theorem foldl_fire_trace (D : SimTime) (l : List AsyncRuntime.TaskId) (w : World ν π φ) :
    (l.foldl (fire D) w).trace = w.trace ++ l.map (Obs.woken · D w.now) ∧
    (l.foldl (fire D) w).now = w.now := by
  induction l generalizing w with
  | nil => exact ⟨(List.append_nil _).symm, rfl⟩
  | cons t l ih =>
    obtain ⟨h₁, h₂⟩ := ih (fire D w t)
    refine ⟨h₁.trans ?_, h₂⟩
    rw [List.map_cons, List.append_cons]
    rfl

/-- Firing takes out the deadlines that are due, leaves the others, and wakes the tasks of the former. -/
theorem fireTimers_spec (n : Nat) {w : World ν π φ} (hn : w.runtime.timers.entries.length ≤ n) :
    (∀ e, e ∈ (fireTimers n w).runtime.timers.entries ↔ e ∈ w.runtime.timers.entries ∧ w.now < e.1) ∧
      ∃ q, (fireTimers n w).trace = w.trace ++ q ∧
        ∀ o, o ∈ q ↔ ∃ e ∈ w.runtime.timers.entries, e.1 ≤ w.now ∧ ∃ t ∈ e.2, o = .woken t e.1 w.now := by
  induction n generalizing w with
  | zero =>
    rw [fireTimers, List.length_eq_zero_iff.mp (Nat.le_zero.mp hn)]
    exact ⟨by simp, [], (List.append_nil _).symm, by simp⟩
  | succ n ih =>
    simp only [fireTimers]
    split
    · rename_i hp
      rw [BTreeMap.popFirst?_eq_none.mp hp]
      exact ⟨by simp, [], (List.append_nil _).symm, by simp⟩
    · rename_i D tasks timers hp
      have hentries := BTreeMap.popFirst?_eq_some hp
      have hs := w.runtime.timers.sorted
      rw [hentries] at hs hn ⊢
      obtain ⟨hfirst, -⟩ := List.pairwise_cons.mp hs
      split
      · rename_i hlt
        -- The first deadline is not due, and the others are later.
        have hall : ∀ e ∈ (D, tasks) :: timers.entries, w.now < e.1 := by
          intro e he
          rcases List.mem_cons.mp he with rfl | he
          · exact hlt
          · exact hlt.trans (hfirst e he)
        refine ⟨fun e => ?_, [], (List.append_nil _).symm, fun o => ?_⟩
        · rw [hentries]
          exact (and_iff_left_of_imp (hall e)).symm
        · refine iff_of_false List.not_mem_nil ?_
          rintro ⟨e, he, hle, -⟩
          exact absurd hle (not_le.mpr (hall e he))
      · rename_i hle
        obtain ⟨htr, hnow⟩ := foldl_fire_trace D tasks (w.setRuntime { w.runtime with timers })
        have htimers : (tasks.foldl (fire D) (w.setRuntime { w.runtime with timers })).runtime.timers =
            timers := by
          rw [foldl_fire_keep]
          rfl
        generalize tasks.foldl (fire D) (w.setRuntime { w.runtime with timers }) = w' at htr hnow htimers ⊢
        have hnow : w'.now = w.now := hnow
        have hlen : w'.runtime.timers.entries.length ≤ n := by
          rw [htimers]
          exact Nat.le_of_succ_le_succ hn
        obtain ⟨h₁, q, h₂, h₃⟩ := ih hlen
        rw [htimers, hnow] at h₁ h₃
        refine ⟨fun e => ?_, tasks.map (Obs.woken · D w.now) ++ q, ?_, fun o => ?_⟩
        · rw [h₁, List.mem_cons, or_and_right, iff_or_self]
          rintro ⟨rfl, hlt⟩
          exact absurd hlt hle
        · rw [h₂, htr, List.append_assoc]
          rfl
        · rw [List.mem_append, h₃]
          simp only [List.mem_cons, or_and_right, exists_or, exists_eq_left, not_lt.mp hle, true_and,
            List.mem_map]
          exact or_congr_left (exists_congr fun t => and_congr_right fun _ => eq_comm)

theorem mem_timersAt_fireTimers {w : World ν π φ} {t : AsyncRuntime.TaskId} {D : SimTime} :
    t ∈ (fireTimers w.runtime.timers.len w).runtime.timersAt D ↔ t ∈ w.runtime.timersAt D ∧ w.now < D := by
  rw [DesRuntime.mem_timersAt, DesRuntime.mem_timersAt]
  simp only [(fireTimers_spec w.runtime.timers.len le_rfl).1]
  constructor
  · rintro ⟨tasks, ⟨hm, hlt⟩, ht⟩
    exact ⟨⟨tasks, hm, ht⟩, hlt⟩
  · rintro ⟨⟨tasks, hm, ht⟩, hlt⟩
    exact ⟨tasks, ⟨hm, hlt⟩, ht⟩

/-- The records of the tasks woken. -/
theorem trace_fireTimers (w : World ν π φ) : ∃ q, (fireTimers w.runtime.timers.len w).trace = w.trace ++ q ∧
    ∀ o, o ∈ q ↔ ∃ t D, t ∈ w.runtime.timersAt D ∧ D ≤ w.now ∧ o = .woken t D w.now := by
  obtain ⟨-, q, hq, hmem⟩ := fireTimers_spec w.runtime.timers.len (w := w) le_rfl
  refine ⟨q, hq, fun o => (hmem o).trans ⟨?_, ?_⟩⟩
  · rintro ⟨⟨D, tasks⟩, hm, hle, t, ht, rfl⟩
    exact ⟨t, D, DesRuntime.mem_timersAt.mpr ⟨tasks, hm, ht⟩, hle, rfl⟩
  · rintro ⟨t, D, ht, hle, rfl⟩
    obtain ⟨tasks, hm, ht⟩ := DesRuntime.mem_timersAt.mp ht
    exact ⟨(D, tasks), hm, hle, t, ht, rfl⟩

theorem Timed.fireTimers {w : World ν π φ} (h : Timed w) : Timed (fireTimers w.runtime.timers.len w) := by
  obtain ⟨q, hq, hmem⟩ := trace_fireTimers w
  have hnow := (grows_fireTimers w.runtime.timers.len w).now
  refine h.ended hq (fun t D r hm => ?_) (fun _ D => D ≤ w.now) (fun t D ht => ?_) (fun t D => ?_) hnow.ge
    (fun t D _ => ?_) (fun t D n hm => ?_)
  · obtain ⟨t', D', -, -, e⟩ := (hmem _).mp hm
    cases e
  · refine ⟨fun hall hle => hall _ ((hmem _).mpr ⟨t, D, ht, hle, rfl⟩) ⟨rfl, rfl⟩,
      fun hlt o ho hend => hlt ?_⟩
    obtain ⟨t', D', -, hle, rfl⟩ := (hmem o).mp ho
    exact hend.2 ▸ hle
  · rw [mem_timersAt_fireTimers, not_le]
  · rw [hnow]
    exact le_max_right _ _
  · obtain ⟨t', D', -, hle, e⟩ := (hmem _).mp hm
    obtain ⟨-, rfl, rfl⟩ := Obs.woken.inj e
    exact ⟨rfl, hle⟩

/-! ## Handlers -/

theorem Ticking.registerTimer {w : World ν π φ} (h : Ticking w) (t : AsyncRuntime.TaskId) (D : SimTime) :
    Ticking (w.registerTimer t D) := by
  unfold World.registerTimer
  split
  · exact h
  · refine Cached.scheduleNextTimerTick ⟨fun e he => ?_, h.tick, h.future⟩
    rcases BTreeMap.mem_insert.mp he with rfl | ⟨he, -⟩
    · simp
    · exact h.filled e he

theorem Timed.registerTimer {w : World ν π φ} (h : Timed w) (t : AsyncRuntime.TaskId) (D : SimTime) :
    Timed (w.registerTimer t D) := by
  unfold World.registerTimer
  split
  · exact h
  · exact (h.registered t D).scheduleNextTimerTick

theorem Ticking.cancelTimer {w : World ν π φ} (h : Ticking w) (t : AsyncRuntime.TaskId) (D : SimTime) :
    Ticking (w.cancelTimer t D) := by
  unfold World.cancelTimer
  split
  · exact h
  · rename_i tasks hget
    split
    · rename_i rest hrest
      -- The deadline keeps its place, so the first one is the same.
      have hne : rest ≠ [] := (DesRuntime.retainNot_eq_some.mp hrest).2
      have hkey : (w.runtime.timers.insert D rest).firstKey? = w.runtime.timers.firstKey? := by
        cases hk : w.runtime.timers.firstKey? with
        | none =>
          have hm := BTreeMap.get?_eq_some.mp hget
          rw [BTreeMap.firstKey?_eq_none.mp hk] at hm
          cases hm
        | some D₀ =>
          obtain ⟨⟨v, hv⟩, hle⟩ := BTreeMap.firstKey?_eq_some.mp hk
          refine BTreeMap.firstKey?_eq_some.mpr ⟨?_, fun e he => ?_⟩
          · by_cases e : D₀ = D
            · exact ⟨rest, BTreeMap.mem_insert.mpr (.inl (by rw [e]))⟩
            · exact ⟨v, BTreeMap.mem_insert.mpr (.inr ⟨hv, e⟩)⟩
          · rcases BTreeMap.mem_insert.mp he with rfl | ⟨he, -⟩
            · exact hle (D, tasks) (BTreeMap.get?_eq_some.mp hget)
            · exact hle e he
      refine ⟨⟨fun e he => ?_, h.tick, h.future⟩, h.deadline.trans hkey.symm⟩
      rcases BTreeMap.mem_insert.mp he with rfl | ⟨he, -⟩
      · exact hne
      · exact h.filled e he
    · exact Cached.scheduleNextTimerTick ⟨fun e he => h.filled e (BTreeMap.mem_erase.mp he).1,
        h.tick, h.future⟩

theorem trace_cancelTimer (w : World ν π φ) (t : AsyncRuntime.TaskId) (D : SimTime) :
    (w.cancelTimer t D).trace = w.trace := by
  unfold cancelTimer
  split
  · rfl
  · split
    · rfl
    · exact trace_scheduleNextTimerTick _

theorem mem_timersAt_cancelTimer {w : World ν π φ} {t t' : AsyncRuntime.TaskId} {D D' : SimTime} :
    t' ∈ (w.cancelTimer t D).runtime.timersAt D' ↔ t' ∈ w.runtime.timersAt D' ∧ ¬ (t' = t ∧ D' = D) := by
  unfold cancelTimer
  split
  · rename_i hget
    refine (and_iff_left_of_imp ?_).symm
    rintro hm ⟨-, rfl⟩
    rw [DesRuntime.timersAt, hget] at hm
    cases hm
  · rename_i tasks hget
    have hat : w.runtime.timersAt D = tasks := by rw [DesRuntime.timersAt, hget]; rfl
    split
    · rename_i rest hrest
      obtain ⟨rfl, -⟩ := DesRuntime.retainNot_eq_some.mp hrest
      rw [DesRuntime.mem_timersAt]
      simp only [setRuntime, BTreeMap.mem_insert, Prod.mk.injEq]
      by_cases e : D' = D
      · subst e
        rw [hat]
        simp
      · simp [e, DesRuntime.mem_timersAt]
    · rename_i hnone
      rw [runtime_scheduleNextTimerTick, DesRuntime.mem_timersAt]
      simp only [setRuntime, BTreeMap.mem_erase]
      by_cases e : D' = D
      · subst e
        rw [hat]
        simp only [ne_eq, not_true_eq_false, and_false, false_and, exists_false, and_true, false_iff,
          not_and, not_not]
        exact fun ht => DesRuntime.retainNot_eq_none.mp hnone t' ht
      · simp [e, DesRuntime.mem_timersAt]

/-- What cancelling a task does, up to its timers. -/
theorem frame_dropTask (w : World ν π φ) (t : AsyncRuntime.TaskId) (drop : List (Action ν)) :
    Frame w ((w.setRuntime (w.runtime.removeTask t)).acts drop) :=
  (frame_thins w (thins_removeTask ..)).trans (acted_acts _ _).toFrame

theorem Ticking.cancelTask {w : World ν π φ} (h : Ticking w) (t : AsyncRuntime.TaskId)
    (drop : List (Action ν)) :
    Ticking (w.cancelTask t drop) := by
  have h' := h.frame (frame_dropTask w t (if (w.runtime.tasks t).isSome then drop else []))
  refine Cached.scheduleNextTimerTick ⟨fun e he => ?_, h'.tick, h'.future⟩
  obtain ⟨D, l⟩ := e
  obtain ⟨u, -, hu⟩ := BTreeMap.mem_filterMapValues.mp he
  exact (DesRuntime.retainNot_eq_some.mp hu).2

theorem cancelTask_spec (w : World ν π φ) (t : AsyncRuntime.TaskId) (drop : List (Action ν)) :
    (∃ q, (w.cancelTask t drop).trace = w.trace ++ q ∧ ∀ o ∈ q, o.Quiet) ∧
      ∀ t' D, t' ∈ (w.cancelTask t drop).runtime.timersAt D ↔ t' ∈ w.runtime.timersAt D ∧ t' ≠ t := by
  have hf := frame_dropTask w t (if (w.runtime.tasks t).isSome then drop else [])
  refine ⟨?_, fun t' D => ?_⟩
  · obtain ⟨q, hq, hquiet⟩ := hf.quiet
    exact ⟨q, (trace_scheduleNextTimerTick _).trans hq, hquiet⟩
  · unfold cancelTask
    rw [runtime_scheduleNextTimerTick]
    refine DesRuntime.mem_timersAt_removeTimers.trans (and_congr_left' ?_)
    rw [timersAt_congr hf.timers]

/-- Events that take the task `t` out of the timers at `D`. -/
def unregisters (now : SimTime) (t : AsyncRuntime.TaskId) (D : SimTime) : RuntimeEvent → Prop
  | .cancel t' => t' = t
  | .cancelTimer t' D' => t' = t ∧ D' = D
  | .timerTick => D ≤ now
  | _ => False

/-- What an event of the runtime does to the timers. -/
theorem mem_timersAt_dispatch [ReadyTaskPolicy π] (w : World ν π φ) (event : RuntimeEvent) (script : Script ν)
    {t : AsyncRuntime.TaskId} {D : SimTime} : t ∈ (w.dispatch event script).runtime.timersAt D ↔
      (t ∈ w.runtime.timersAt D ∧ ¬ unregisters w.now t D event) ∨
        event = .registerTimer t D ∧ w.runtime.tasks t ≠ none := by
  cases event with
  | poll =>
    have hf := frame_pollReadyTasks w script.polls
    simp only [dispatch, timersAt_congr hf.timers, unregisters, not_false_eq_true, and_true,
      reduceCtorEq, false_and, or_false]
  | wake t' =>
    have hf := (frame_wakeTask w t').trans (frame_pollReadyTasks _ script.polls)
    simp only [dispatch, timersAt_congr hf.timers, unregisters, not_false_eq_true, and_true,
      reduceCtorEq, false_and, or_false]
  | cancel t' =>
    rw [dispatch, (cancelTask_spec w t' script.drop).2]
    simp only [unregisters, reduceCtorEq, false_and, or_false, ne_comm, ne_eq]
  | registerTimer t' D' =>
    simp only [dispatch, registerTimer, unregisters, not_false_eq_true, and_true,
      RuntimeEvent.registerTimer.injEq]
    split
    · rename_i hnone
      refine (or_iff_left ?_).symm
      rintro ⟨⟨rfl, -⟩, ht⟩
      exact ht hnone
    · rename_i task hsome
      rw [runtime_scheduleNextTimerTick]
      refine DesRuntime.mem_timersAt_pushTimer.trans (or_congr_right ⟨?_, ?_⟩)
      · rintro ⟨rfl, rfl⟩
        exact ⟨⟨rfl, rfl⟩, by simp [hsome]⟩
      · rintro ⟨⟨rfl, rfl⟩, -⟩
        exact ⟨rfl, rfl⟩
  | cancelTimer t' D' =>
    rw [dispatch, mem_timersAt_cancelTimer]
    simp only [unregisters, reduceCtorEq, false_and, or_false, eq_comm]
  | timerTick =>
    have ht := mem_timersAt_fireTimers (w := w.setRuntime { w.runtime with nextTimerDeadline := none })
      (t := t) (D := D)
    rw [dispatch, handleTimerTick, timersAt_congr (frame_pollReadyTasks _ script.polls).timers,
      runtime_scheduleNextTimerTick]
    simp only [unregisters, not_le, reduceCtorEq, false_and, or_false]
    exact ht

/-! ## Steps -/

theorem Ticking.storeKey {w : World ν π φ} (h : Ticking w) : Ticking w.storeKey :=
  ⟨⟨h.filled, h.tick, h.future⟩, h.deadline⟩

theorem Timed.storeKey {w : World ν π φ} (h : Timed w) : Timed w.storeKey := ⟨h.timers, h.due, h.woken⟩

/-- Opening an event that is not a cancellation. -/
theorem Timed.opened {w w₁ : World ν π φ} {e : EventEntry (Payload ν)} (h : Timed w)
    (hT : Ticking w) (ho : Opened w w₁ e)
    (hend : ∀ t D, ¬ Obs.Ends t D (.processed (runtimeEvent? e) e.time)) : Timed w₁ := by
  have hrt : w₁.runtime = w.runtime := by rw [ho.keep]
  have htr : w₁.trace = w.trace ++ [Obs.processed (runtimeEvent? e) e.time] := by rw [ho.keep]
  refine h.ended htr (by simp) (fun _ _ => False) (fun t D _ => ?_) (fun t D => ?_) ?_
    (fun t D ht => ?_) (by simp)
  · simp only [List.mem_singleton, forall_eq, hend t D]
  · rw [hrt, and_iff_left not_false]
  · rw [ho.now]
    exact hT.future e ho.mem
  · rw [ho.now]
    obtain ⟨tasks, hm, -⟩ := DesRuntime.mem_timersAt.mp ht
    exact hT.opened_le ho hm

/-- Opening a cancellation, and processing it. -/
theorem Timed.cancelled {w w₁ w' : World ν π φ} {e : EventEntry (Payload ν)} (h : Timed w)
    (hT : Ticking w) (ho : Opened w w₁ e) (hg : Grows w₁ w') {q : List Obs}
    (hq : w'.trace = w₁.trace ++ q) (hquiet : ∀ o ∈ q, o.Quiet)
    (ht : ∀ t D, t ∈ w'.runtime.timersAt D ↔ t ∈ w₁.runtime.timersAt D ∧
      ¬ Obs.Ends t D (.processed (runtimeEvent? e) e.time)) :
    Timed w' := by
  have hrt : w₁.runtime = w.runtime := by rw [ho.keep]
  have htr : w'.trace = w.trace ++ Obs.processed (runtimeEvent? e) e.time :: q := by
    rw [hq, ho.keep, List.append_assoc]
    rfl
  have hnow : w'.now = e.time := hg.now.trans ho.now
  refine h.ended htr (fun t D r hm => ?_)
    (fun t D => Obs.Ends t D (.processed (runtimeEvent? e) e.time)) (fun t D _ => ?_)
    (fun t D => by rw [ht, hrt]) ?_ (fun t D ht => ?_) (fun t D n hm => ?_)
  · rcases List.mem_cons.mp hm with hm | hm
    · cases hm
    · exact (hquiet _ hm).elim
  · simp only [List.mem_cons, forall_eq_or_imp, and_iff_left_iff_imp]
    exact fun _ o hm => (hquiet o hm).not_ends t D
  · rw [hnow]
    exact hT.future e ho.mem
  · rw [hnow]
    obtain ⟨tasks, hm, -⟩ := DesRuntime.mem_timersAt.mp ht
    exact hT.opened_le ho hm
  · rcases List.mem_cons.mp hm with hm | hm
    · cases hm
    · exact (hquiet _ hm).elim

theorem Ticking.close {w : World ν π φ} (h : Ticking w) : Ticking w.close := by
  have hd := drained_close w
  have hnow : w.close.now = w.now := hd.now
  refine ⟨⟨?_, fun D hD => ?_, Future.adds (w := { w with inContext := false }) h.future hd.scheduler⟩, ?_⟩
  · rw [runtime_close]; exact h.filled
  · rw [runtime_close] at hD
    obtain ⟨e, he, ht, hle⟩ := h.tick D hD
    exact ⟨e, hd.held e he, ht, hnow ▸ hle⟩
  · rw [runtime_close]; exact h.deadline

theorem Timed.close {w : World ν π φ} (h : Timed w) : Timed w.close :=
  h.quiet (q := []) ((trace_close w).trans (List.append_nil _).symm) (by simp) (by rw [runtime_close])
    (drained_close w).now

section
variable [ReadyTaskPolicy π]

/-- A tick makes a new start: it needs no tick in the heap. -/
theorem ticking_handleTimerTick {w : World ν π φ} (hf : ∀ e ∈ w.runtime.timers.entries, e.2 ≠ [])
    (hh : ∀ e ∈ w.heap, w.now ≤ e.time) (h : Timed w) (polls : Nat → PollScript ν) :
    Ticking (w.handleTimerTick polls) ∧ Timed (w.handleTimerTick polls) := by
  have hc : Cached (w.setRuntime { w.runtime with nextTimerDeadline := none }) := ⟨hf, nofun, hh⟩
  have ht : Timed (w.setRuntime { w.runtime with nextTimerDeadline := none }) := ⟨h.timers, h.due, h.woken⟩
  unfold handleTimerTick
  simp only
  generalize w.setRuntime { w.runtime with nextTimerDeadline := none } = w₀ at hc ht ⊢
  have hc' : Cached (fireTimers w₀.runtime.timers.len w₀) := by
    refine hc.grows (grows_fireTimers ..) (fun e he => hc.filled e ?_) ?_
    · exact (((fireTimers_spec w₀.runtime.timers.len le_rfl).1 e).mp he).1
    · rw [fireTimers_keep]
  exact ⟨hc'.scheduleNextTimerTick.frame (frame_pollReadyTasks ..),
    ht.fireTimers.scheduleNextTimerTick.frame (frame_pollReadyTasks ..)⟩

theorem timed_processEventEntry {w w₁ : World ν π φ} {e : EventEntry (Payload ν)} (hT : Ticking w)
    (h : Timed w) (ho : Opened w w₁ e) (script : Script ν) :
    Ticking (w₁.processEventEntry e script) ∧ Timed (w₁.processEventEntry e script) := by
  rcases e with ⟨i, τ, c, event | v⟩ | ⟨i, τ, id⟩
  · have hf := frame_processEvent w₁ event script
    suffices hd : Ticking (w₁.storeKey.dispatch event script) ∧ Timed (w₁.storeKey.dispatch event script) from
      ⟨hd.1.frame hf, hd.2.frame hf⟩
    cases event with
    | poll =>
      have hf := frame_pollReadyTasks w₁.storeKey script.polls
      exact ⟨(hT.opened ho (by simp [runtimeEvent?])).storeKey.frame hf,
        (h.opened hT ho (by simp [runtimeEvent?, Obs.Ends, Obs.Cancels])).storeKey.frame hf⟩
    | wake t =>
      have hf := (frame_wakeTask w₁.storeKey t).trans (frame_pollReadyTasks _ script.polls)
      exact ⟨(hT.opened ho (by simp [runtimeEvent?])).storeKey.frame hf,
        (h.opened hT ho (by simp [runtimeEvent?, Obs.Ends, Obs.Cancels])).storeKey.frame hf⟩
    | cancel t =>
      obtain ⟨⟨q, hq, hquiet⟩, htimers⟩ := cancelTask_spec w₁.storeKey t script.drop
      refine ⟨(hT.opened ho (by simp [runtimeEvent?])).storeKey.cancelTask t script.drop,
        h.cancelled hT ho ((grows_storeKey w₁).trans (grows_cancelTask ..)) hq hquiet fun t' D => ?_⟩
      refine (htimers t' D).trans (and_congr_right fun _ => not_congr ?_)
      exact ⟨Eq.symm, Eq.symm⟩
    | registerTimer t D =>
      exact ⟨(hT.opened ho (by simp [runtimeEvent?])).storeKey.registerTimer t D,
        (h.opened hT ho (by simp [runtimeEvent?, Obs.Ends, Obs.Cancels])).storeKey.registerTimer t D⟩
    | cancelTimer t D =>
      refine ⟨(hT.opened ho (by simp [runtimeEvent?])).storeKey.cancelTimer t D,
        h.cancelled hT ho ((grows_storeKey w₁).trans (grows_cancelTimer ..)) (q := []) ?_
          (by simp) fun t' D' => ?_⟩
      · exact (trace_cancelTimer ..).trans (List.append_nil _).symm
      · refine mem_timersAt_cancelTimer.trans (and_congr_right fun _ => not_congr ?_)
        exact ⟨fun h => ⟨h.1.symm, h.2.symm⟩, fun h => ⟨h.1.symm, h.2.symm⟩⟩
    | timerTick =>
      have ht := (h.opened hT ho (by simp [runtimeEvent?, Obs.Ends, Obs.Cancels])).storeKey
      refine ticking_handleTimerTick ?_ (fun x hx => ?_) ht script.polls
      · show ∀ e ∈ w₁.runtime.timers.entries, e.2 ≠ []
        rw [ho.keep]
        exact hT.filled
      · show w₁.now ≤ x.time
        rw [ho.now]
        exact (ho.sub x hx).2
  · have hf := (acted_acts w₁ script.handler).toFrame
    exact ⟨(hT.opened ho (by simp [runtimeEvent?])).frame hf,
      (h.opened hT ho (by simp [runtimeEvent?, Obs.Ends, Obs.Cancels])).frame hf⟩
  · have hf := (acted_executeTask w₁ id script).toFrame
    exact ⟨(hT.opened ho (by simp [runtimeEvent?])).frame hf,
      (h.opened hT ho (by simp [runtimeEvent?, Obs.Ends, Obs.Cancels])).frame hf⟩

variable [EventFrontierPolicy φ]

omit [ReadyTaskPolicy π] [EventFrontierPolicy φ] in
/-- While there are timers the heap holds a tick. -/
theorem Ticking.exists_tick {w : World ν π φ} (h : Ticking w) (hne : w.runtime.timers.entries ≠ []) :
    ∃ D, w.runtime.timers.firstKey? = some D ∧ ∃ e ∈ w.heap,
    runtimeEvent? e = some .timerTick ∧ e.time ≤ max D w.now := by
  obtain ⟨D, hD⟩ := Option.ne_none_iff_exists'.mp fun h => hne (BTreeMap.firstKey?_eq_none.mp h)
  exact ⟨D, hD, h.tick D (h.deadline.trans hD)⟩

theorem timed_move {w : World ν π φ} (m : Move ν π φ) (hT : Ticking w) (h : Timed w) :
    Ticking (w.move m) ∧ Timed (w.move m) := by
  rcases move_cases m with hm | ⟨script, rfl⟩
  · exact ⟨hT.frame (frame_move w hm), h.frame (frame_move w hm)⟩
  · show Ticking (w.step script).2 ∧ Timed (w.step script).2
    rcases step_cases w script with ⟨s, p, he, hc, hs, hr, -⟩ | ⟨e, w₁, ho, he, -⟩
    · -- The heap has no tick, so no deadline is cached.
      rw [he]
      refine ⟨⟨⟨hT.filled, fun D hD => ?_, fun e he => ?_⟩, hT.deadline⟩,
        h.quiet (q := []) (List.append_nil _).symm (by simp) rfl hc⟩
      · obtain ⟨x, hx, ht, -⟩ := hT.tick D hD
        rw [hr x hx] at ht
        cases ht
      · rw [heap, hs] at he
        cases he
    · rw [he]
      obtain ⟨h₁, h₂⟩ := timed_processEventEntry hT h ho script
      exact ⟨h₁.close, h₂.close⟩

theorem timed_run {w : World ν π φ} (moves : List (Move ν π φ)) (hT : Ticking w) (h : Timed w) :
    Ticking (w.run moves) ∧ Timed (w.run moves) :=
  run_rule (P := fun w => Ticking w ∧ Timed w) (fun _ m h => timed_move m h.1 h.2) ⟨hT, h⟩ moves

omit [ReadyTaskPolicy π] [EventFrontierPolicy φ] in
theorem timed_install {s : Scheduler (Payload ν) Unit Unit} (hs : ∀ e ∈ s.events.toList, s.clock ≤ e.time)
    (frontierPolicy : φ) (deferred : List (SimTime × Message ν)) (key : Uuid) (policy : π) (spawned : Nat) :
    Ticking (install s frontierPolicy deferred key policy spawned) ∧
      Timed (install s frontierPolicy deferred key policy spawned) := by
  have hrt := runtime_install s frontierPolicy deferred key policy spawned
  have htimers : (install s frontierPolicy deferred key policy spawned).runtime.timers = .empty := by
    rw [hrt]; rfl
  have hnext : (install s frontierPolicy deferred key policy spawned).runtime.nextTimerDeadline =
    none := by rw [hrt]; rfl
  have htr : (install s frontierPolicy deferred key policy spawned).trace = [] := trace_schedule ..
  have hopen : ∀ t D r, ¬ OpenTimer (install s frontierPolicy deferred key policy spawned).trace t D r := by
    rw [htr]
    exact fun t D r h => absurd h.mem List.not_mem_nil
  refine ⟨⟨⟨?_, ?_, fun e he => ?_⟩, ?_⟩, ⟨fun t D => ?_, fun t D r h => absurd h (hopen t D r), htr ▸ .nil⟩⟩
  · rw [htimers]
    nofun
  · rw [hnext]
    nofun
  · have hnow : (install s frontierPolicy deferred key policy spawned).now = s.clock := now_schedule ..
    rw [hnow]
    rcases (mem_heap_schedule ..).mp he with rfl | he
    · exact SimTime.le_add ..
    · exact hs e he
  · rw [hnext, htimers]
    rfl
  · rw [DesRuntime.mem_timersAt, htimers]
    exact ⟨by rintro ⟨_, ⟨⟩, _⟩, fun ⟨r, h⟩ => absurd h (hopen t D r)⟩

/-- In every run of a simulation that has no event in the past when the runtime is installed: a
deadline has tasks; the cached deadline is the first one, and a `TimerTick` for it is in the heap; the
timers are the open registrations. A registration at `D` made at `r` is open until the clock is at
`max D r` at the latest, a wake that ends it comes exactly then, and one that was not cancelled has
been woken when the clock is past that time. The simulation does not end while there are timers. -/
theorem run_timers (s : Scheduler (Payload ν) Unit Unit) (hs : ∀ e ∈ s.events.toList, s.clock ≤ e.time)
    (frontierPolicy : φ) (deferred : List (SimTime × Message ν)) (key : Uuid) (policy : π) (spawned : Nat)
    (moves : List (Move ν π φ)) :
    let w := (install s frontierPolicy deferred key policy spawned).run moves
    (∀ D tasks, (D, tasks) ∈ w.runtime.timers.entries → tasks ≠ []) ∧
    (w.runtime.timers.entries ≠ [] → ∃ D, w.runtime.nextTimerDeadline = some D ∧
      (∃ tasks, (D, tasks) ∈ w.runtime.timers.entries) ∧ (∀ e ∈ w.runtime.timers.entries, D ≤ e.1) ∧
      ∃ e ∈ w.heap, runtimeEvent? e = some .timerTick ∧ e.time ≤ max D w.now) ∧
    (∀ t D, t ∈ w.runtime.timersAt D ↔ ∃ r, OpenTimer w.trace t D r) ∧
    (∀ t D r, OpenTimer w.trace t D r → w.now ≤ max D r) ∧
    (∀ pre t D n post, w.trace = pre ++ .woken t D n :: post → ∀ r, OpenTimer pre t D r → n = max D r) ∧
    (∀ pre t D r post, w.trace = pre ++ .registered t D r :: post → (∀ o ∈ post, ¬ o.Cancels t D) → max D r < w.now →
      .woken t D (max D r) ∈ post) ∧
    ∀ script, (w.step script).1 = false → w.runtime.timers.entries = [] := by
  intro w
  obtain ⟨hT, h⟩ : Ticking w ∧ Timed w := by
    obtain ⟨h₁, h₂⟩ := timed_install hs frontierPolicy deferred key policy spawned
    exact timed_run moves h₁ h₂
  refine ⟨fun D tasks hm => hT.filled _ hm, fun hne => ?_, h.timers, fun t D r ho => (h.due t D r ho).2,
    fun pre t D n post e r ho => h.woken pre _ post e t D n r rfl ho, fun pre t D r post e hc hlt => ?_,
    fun script hf => ?_⟩
  · obtain ⟨D, hD, htick⟩ := hT.exists_tick hne
    obtain ⟨hm, hle⟩ := BTreeMap.firstKey?_eq_some.mp hD
    exact ⟨D, hT.deadline.trans hD, hm, hle, htick⟩
  · -- It is not open any more, and what ended it first was a wake.
    have hnot : ¬ OpenTimer w.trace t D r := fun ho => absurd (h.due t D r ho).2 (not_le.mpr hlt)
    rw [e] at hnot
    obtain ⟨p, o, q, rfl, hend, hopen⟩ := Trace.exists_first_of_not_open hnot
    have ho : o ∈ p ++ o :: q := List.mem_append_right _ List.mem_cons_self
    obtain ⟨n, rfl⟩ : ∃ n, o = .woken t D n := by
      have hno := hc o ho
      cases o with
      | woken t' D' n =>
        obtain ⟨rfl, rfl⟩ := hend
        exact ⟨n, rfl⟩
      | processed ev n => exact absurd hend hno
      | polled t' => exact absurd hend hno
      | registered t' D' n => exact absurd hend hno
      | sleepPending i c => exact absurd hend hno
      | called call c n => exact absurd hend hno
    have hn := h.woken (pre ++ .registered t D r :: p) _ q (by rw [e]; simp) t D n r rfl hopen
    rw [← hn]
    exact ho
  · by_contra hne
    obtain ⟨D, -, x, hx, ht, -⟩ := hT.exists_tick hne
    rcases step_cases w script with ⟨s, p, -, -, -, hr, -⟩ | ⟨e, w₁, ho, he, -⟩
    · rw [hr x hx] at ht
      cases ht
    · rw [he] at hf
      cases hf

end

/-- A task that sleeps until 5 ns: it is polled, and then its timer is registered. -/
def sleepUntilFive : List (Move Unit FifoReadyTaskPolicy FifoFrontierPolicy) :=
  [.step { Script.idle with polls := fun _ => ⟨[.newSleep (.untilTime (.saturate 5)), .pollSleep 0], false, []⟩ },
    .step .idle]

theorem run_timers_sleepUntilFive :
    let w := (install (.withSeed 7) {} [] 0 {} 1).run sleepUntilFive
    w.runtime.timersAt (.saturate 5) = [0] ∧ ∃ r, OpenTimer w.trace 0 (.saturate 5) r := by
  have h := run_timers (.withSeed 7) nofun {} [] 0 {} 1 sleepUntilFive
  refine ⟨by decide, (h.2.2.1 0 (.saturate 5)).mp ?_⟩
  decide

end World

end DesCartes
