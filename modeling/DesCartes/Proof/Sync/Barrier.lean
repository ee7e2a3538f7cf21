import DesCartes.Framework.Machine
import DesCartes.Impl.Sync.Barrier

/-!
# Generations of the barrier

`run_generations`: as long as every future is polled for the first time in the generation that it
was created in, and no future takes the entry of another (`Considerate`), a generation is released
exactly when as many futures are counted in it as there are parties, each of them is woken and
completes, and one of them is the leader.

A future that is created in one generation and polled in a later one completes without having been
counted in any, so the condition cannot be left out (`lateWait_passes`).
-/

namespace DesCartes.Barrier

variable {ω : Type} [DecidableEq ω]

/-- One, if the future was counted in the generation `g`. -/
def Wait.countedIn (g : Nat) (p : Wait ω) : Nat := if p.counted = some g then 1 else 0

/-- One, if the future was counted in the generation `g` for the task `t`. -/
def Wait.countedFor (g : Nat) (t : AsyncRuntime.TaskId) (p : Wait ω) : Nat :=
  if p.counted = some g ∧ p.taskId = some t then 1 else 0

/-- How many futures that are alive were counted in the generation `g`. -/
def members (b : Barrier ω) (g : Nat) : Nat := b.waits.total (Wait.countedIn g)

/-- When the first entry of the task of the future `i` is taken away and the waker `renewed` comes
in its place, if there is one, all others that are counted in this generation still have an entry
with their waker. -/
def Spared (b : Barrier ω) (i : Nat) (p : Wait ω) (renewed : Option ω) : Prop :=
  ∀ taskId k, p.taskId = some taskId → b.state.waiters.findIdx? (·.taskId = taskId) = some k →
    ∀ j q w, j ≠ i → b.waits.get j = some q → q.counted = some b.releases → q.waker = some w →
      renewed = some w ∨ ∃ e ∈ b.state.waiters.eraseIdx k, e.waker = w

/-- What is done to a future: its first poll is made in the generation that it was created in; a
later poll or its drop spares the others, and is not made `2^64` generations later. -/
def InTime (b : Barrier ω) (i : Nat) (p : Wait ω) (renewed : Option ω) : Prop :=
  ∀ g, p.counted = some g → (g < b.releases → b.releases - g < 2 ^ 64) ∧ (g = b.releases → b.Spared i p renewed)

/-- What an operation must not do. -/
def Considerate (b : Barrier ω) : Op ω → Prop
  | .wait => True
  | .poll i _ waker => ∀ p, b.waits.get i = some p → (p.counted = none → p.created = b.releases) ∧ b.InTime i p (some waker)
  | .drop i => ∀ p, b.waits.get i = some p → b.InTime i p none

/-! ## What an operation does -/

/-- What an operation can do that does not panic. -/
inductive Stepped (b : Barrier ω) : Op ω → Barrier ω → Answer → Prop where
  /-- The future does not exist any more. -/
  | gone {op : Op ω} (h : ∀ i task waker, op = .poll i task waker → b.waits.get i = none) : Stepped b op b .done
  | wait : Stepped b .wait b.wait .done
  | passed {i : Nat} {p : Wait ω} {task : Option AsyncRuntime.TaskId} {waker : ω} (hi : b.waits.get i = some p)
      (hg : b.state.generation ≠ p.generation) : Stepped b (.poll i task waker) (b.pass i p).1 (b.pass i p).2
  | renewed {i : Nat} {p : Wait ω} {task : Option AsyncRuntime.TaskId} {waker : ω} {taskId : AsyncRuntime.TaskId}
      (hi : b.waits.get i = some p) (hg : b.state.generation = p.generation) (hr : p.registered = true)
      (ht : p.taskId.or task = some taskId) :
      Stepped b (.poll i task waker) (b.renew i p taskId waker).1 (b.renew i p taskId waker).2
  | released {i : Nat} {p : Wait ω} {task : Option AsyncRuntime.TaskId} {waker : ω} (hi : b.waits.get i = some p)
      (hg : b.state.generation = p.generation) (hr : p.registered = false)
      (hn : b.state.arrived + 1 = b.state.parties) : Stepped b (.poll i task waker) (b.release i).1 (b.release i).2
  | arrived {i : Nat} {p : Wait ω} {task : Option AsyncRuntime.TaskId} {waker : ω} {taskId : AsyncRuntime.TaskId}
      (hi : b.waits.get i = some p) (hg : b.state.generation = p.generation) (hr : p.registered = false)
      (hn : b.state.arrived + 1 ≠ b.state.parties) :
      Stepped b (.poll i task waker) (b.arrive i p taskId waker).1 (b.arrive i p taskId waker).2
  | dropped {i : Nat} {p : Wait ω} (hi : b.waits.get i = some p) :
      Stepped b (.drop i) { b with state := b.state.leave p, waits := b.waits.erase i } (.dropped i p.counted b.releases)

section
variable {b b' : Barrier ω} {op : Op ω} {ans : Answer} {i : Nat} {p : Wait ω}

theorem stepped_of_step (hs : b.step op = some (b', ans)) : Stepped b op b' ans := by
  cases op with
  | wait => cases hs; exact .wait
  | poll i task waker =>
    simp only [step] at hs
    split at hs
    · rename_i hi
      cases hs
      exact .gone fun j _ _ e => by cases e; exact hi
    · rename_i p hi
      simp only [poll, Option.map_eq_some_iff] at hs
      obtain ⟨taskId, ht, hs⟩ := hs
      split at hs
      · rename_i hg
        cases hs
        exact .passed hi hg
      · rename_i hg
        have hg : b.state.generation = p.generation := by simpa using hg
        split at hs
        · rename_i hr
          cases hs
          exact .renewed hi hg hr ht
        · rename_i hr
          have hr : p.registered = false := by simpa using hr
          split at hs
          · rename_i hn
            cases hs
            exact .released hi hg hr hn
          · rename_i hn
            cases hs
            exact .arrived hi hg hr hn
  | drop i =>
    simp only [step] at hs
    split at hs
    · cases hs
      exact .gone fun _ _ _ e => by cases e
    · rename_i p hi
      cases hs
      exact .dropped hi

/-! ## The state and the futures -/

/-- What holds of a future, after so many releases. -/
structure Wait.Good (p : Wait ω) (releases : Nat) : Prop where
  generation : p.generation = p.created % 2 ^ 64
  created : p.created ≤ releases
  counted : p.registered = true ↔ p.counted = some p.created
  counted_or : p.counted = none ∨ p.counted = some p.created
  taskId : p.registered = true → p.taskId ≠ none
  waker : p.registered = true → p.waker ≠ none
  woken : p.registered = true → p.created < releases → p.woken = true

/-- What holds of a barrier: the entries are those of the futures that are counted in this generation. -/
structure Good (b : Barrier ω) : Prop where
  generation : b.state.generation = b.releases % 2 ^ 64
  arrived : b.state.arrived = b.state.waiters.length
  lt : b.state.arrived < b.state.parties
  wait : ∀ i p, b.waits.get i = some p → p.Good b.releases
  present : b.state.waiters.length = b.members b.releases
  tasks : ∀ t, b.state.waiters.countP (·.taskId = t) =
    b.waits.total (Wait.countedFor b.releases t)
  entered : ∀ i p w, b.waits.get i = some p → p.counted = some b.releases → p.waker = some w →
    ∃ e ∈ b.state.waiters, e.waker = w

omit [DecidableEq ω] in
theorem Wait.Good.mono {releases : Nat} (h : p.Good releases) (hw : p.registered = true → p.woken = true) :
    p.Good (releases + 1) :=
  ⟨h.generation, h.created.trans (Nat.le_succ _), h.counted, h.counted_or, h.taskId, h.waker,
    fun hr _ => hw hr⟩

omit [DecidableEq ω] in
/-- A future of which the generation is that of the barrier, and which is in time, was created in it. -/
theorem Good.created_eq (h : b.Good) (hi : b.waits.get i = some p) {renewed : Option ω}
    (ht : b.InTime i p renewed) (hg : b.state.generation = p.generation)
    (hc : p.counted = some p.created) : p.created = b.releases := by
  have hp := h.wait i p hi
  have hlt := (ht p.created hc).1
  have hle := hp.created
  rw [h.generation, hp.generation] at hg
  omega

omit [DecidableEq ω] in
/-- A future that is counted in this generation has an entry of its task. -/
theorem Good.findIdx (h : b.Good) (hi : b.waits.get i = some p) (hc : p.counted = some b.releases)
    {t : AsyncRuntime.TaskId} (ht : p.taskId = some t) :
    ∃ k, b.state.waiters.findIdx? (·.taskId = t) = some k := by
  have hle : p.countedFor b.releases t ≤ _ := Table.le_total hi
  rw [Wait.countedFor, if_pos ⟨hc, ht⟩, ← h.tasks t] at hle
  obtain ⟨e, he, het⟩ := List.countP_pos_iff.mp hle
  cases hf : b.state.waiters.findIdx? (·.taskId = t) with
  | some k => exact ⟨k, rfl⟩
  | none =>
    have := List.findIdx?_eq_none_iff.mp hf e he
    rw [het] at this
    cases this

omit [DecidableEq ω] in
theorem Good.create (h : b.Good) : b.wait.Good := by
  have hnew : ∀ j q, b.wait.waits.get j = some q →
      q = ⟨b.state.generation, none, false, b.releases, none, none, false⟩ ∨ b.waits.get j = some q :=
    fun j q hq => (Table.get_insert_eq_some.mp hq).imp_left And.right
  refine ⟨h.generation, h.arrived, h.lt, fun j q hq => ?_, ?_, fun t => ?_, fun j q w hq hc hw => ?_⟩
  · rcases hnew j q hq with rfl | hq
    · exact ⟨h.generation, le_rfl, by simp, .inl rfl, by simp, by simp, by simp⟩
    · exact h.wait j q hq
  · simpa [members, Barrier.wait, Wait.countedIn] using h.present
  · simpa [Barrier.wait, Wait.countedFor] using h.tasks t
  · rcases hnew j q hq with rfl | hq
    · cases hc
    · exact h.entered j q w hq hc hw

omit [DecidableEq ω] in
/-- A future goes that is not counted in this generation. -/
theorem Good.erase (h : b.Good) (hi : b.waits.get i = some p) (hc : p.counted ≠ some b.releases) :
    ({ b with waits := b.waits.erase i } : Barrier ω).Good := by
  have hold : ∀ j q, (b.waits.erase i).get j = some q → b.waits.get j = some q :=
    fun j q hq => (Table.get_erase_eq_some.mp hq).2
  refine ⟨h.generation, h.arrived, h.lt, fun j q hq => h.wait j q (hold j q hq), ?_, fun t => ?_,
    fun j q w hq => h.entered j q w (hold j q hq)⟩
  · have := Table.total_erase (f := Wait.countedIn b.releases) hi
    rw [Wait.countedIn, if_neg hc] at this
    exact h.present.trans this.symm
  · have := Table.total_erase (f := Wait.countedFor b.releases t) hi
    rw [Wait.countedFor, if_neg fun hn => hc hn.1] at this
    exact (h.tasks t).trans this.symm

omit [DecidableEq ω] in
/-- The entries after the first one of a task gets another waker. -/
theorem mem_modify {l : List (Waiter ω)} {k : Nat} {waker : ω} {e : Waiter ω} (he : e ∈ l.eraseIdx k) :
    e ∈ l.modify k fun w => { w with waker } := by
  obtain ⟨j, hj, hne, rfl⟩ := List.mem_eraseIdx_iff_getElem.mp he
  have hj' : j < (l.modify k fun w => { w with waker }).length := by simpa using hj
  have hget : (l.modify k fun w => { w with waker })[j] = l[j] := List.getElem_modify_ne _ _ (Ne.symm hne) hj'
  rw [← hget]
  exact List.getElem_mem hj'

omit [DecidableEq ω] in
theorem Good.renew (h : b.Good) (hi : b.waits.get i = some p) (hc : p.counted = some b.releases)
    (hcreated : p.created = b.releases) {taskId : AsyncRuntime.TaskId} (ht : p.taskId = some taskId)
    {waker : ω} (hs : b.Spared i p (some waker)) : (b.renew i p taskId waker).1.Good := by
  obtain ⟨k, hk⟩ := h.findIdx hi hc ht
  have hlt : k < b.state.waiters.length := (List.findIdx?_eq_some_iff_findIdx_eq.mp hk).1
  have hcount : ∀ t, (b.state.waiters.modify k fun w => { w with waker }).countP (·.taskId = t) =
      b.state.waiters.countP (·.taskId = t) := by
    intro t
    have hmap : ∀ l : List (Waiter ω), l.countP (·.taskId = t) = (l.map (·.taskId)).countP (· = t) :=
      fun l => by
      rw [List.countP_map]
      rfl
    have hsame : (b.state.waiters.modify k fun w => { w with waker }).map
        (·.taskId) = b.state.waiters.map (·.taskId) := by
      refine List.ext_getElem (by simp) fun j h₁ h₂ => ?_
      simp only [List.getElem_map, List.getElem_modify]
      split <;> rfl
    rw [hmap, hmap, hsame]
  have hset : ∀ f : Wait ω → Nat, f { p with waker := some waker, woken := false } = f p →
      (b.waits.set i { p with waker := some waker, woken := false }).total f = b.waits.total f := by
    intro f hf
    have := Table.total_set (f := f) (b := { p with waker := some waker, woken := false }) hi
    omega
  simp only [Barrier.renew, hk]
  refine ⟨h.generation, ?_, h.lt, fun j q hq => ?_, ?_, fun t => ?_, fun j q w hq hqc hqw => ?_⟩
  · simpa using h.arrived
  · rcases (Table.get_set_eq_some hi).mp hq with ⟨-, rfl⟩ | ⟨-, hq⟩
    · have hp := h.wait i p hi
      exact ⟨hp.generation, hp.created, hp.counted, hp.counted_or, hp.taskId, fun _ => by simp,
        fun _ hlt => absurd hlt (by simp [hcreated])⟩
    · exact h.wait j q hq
  · simp only [List.length_modify, members]
    rw [hset _ rfl]
    exact h.present
  · rw [hcount, hset _ rfl]
    exact h.tasks t
  · have hown : ∃ e ∈ b.state.waiters.modify k fun w => { w with waker }, e.waker = waker := by
      have hlt' : k < (b.state.waiters.modify k fun w => { w with waker }).length := by simpa using hlt
      exact ⟨_, List.getElem_mem hlt', by simp⟩
    rcases (Table.get_set_eq_some hi).mp hq with ⟨-, rfl⟩ | ⟨hji, hq⟩
    · cases hqw
      exact hown
    · rcases hs taskId k ht hk j q w hji hq hqc hqw with e | ⟨e, he, hew⟩
      · cases e
        exact hown
      · exact ⟨e, mem_modify he, hew⟩

omit [DecidableEq ω] in
theorem Good.arrive (h : b.Good) (hi : b.waits.get i = some p) (hc : p.counted = none)
    (hcreated : p.created = b.releases) (hn : b.state.arrived + 1 ≠ b.state.parties)
    (taskId : AsyncRuntime.TaskId) (waker : ω) :
    (b.arrive i p taskId waker).1.Good := by
  have hp := h.wait i p hi
  have hlt := h.lt
  have hset := fun f : Wait ω → Nat => Table.total_set (f := f) (b := { p with
    taskId := some taskId, registered := true, counted := some b.releases, waker := some waker, woken :=
    false }) hi
  refine ⟨h.generation, ?_, ?_, fun j q hq => ?_, ?_, fun t => ?_, fun j q w hq hqc hqw => ?_⟩
  · simp only [Barrier.arrive, List.length_append, List.length_singleton, h.arrived]
  · simp only [Barrier.arrive]
    omega
  · rcases (Table.get_set_eq_some hi).mp hq with ⟨-, rfl⟩ | ⟨-, hq⟩
    · exact ⟨hp.generation, hp.created, by simp [hcreated], .inr (by simp [hcreated]), by simp, by simp,
        fun _ hlt => absurd hlt (by simp [Barrier.arrive, hcreated])⟩
    · exact h.wait j q hq
  · have := hset (Wait.countedIn b.releases)
    simp only [Wait.countedIn, hc, if_true, reduceCtorEq, if_false, Nat.add_zero] at this
    simp only [Barrier.arrive, List.length_append, List.length_singleton]
    exact (congrArg (· + 1) h.present).trans this.symm
  · have := hset (Wait.countedFor b.releases t)
    simp only [Wait.countedFor, hc, true_and, reduceCtorEq, false_and, if_false, Nat.add_zero,
      Option.some.injEq] at this
    simp only [Barrier.arrive, List.countP_append, List.countP_singleton, decide_eq_true_eq]
    exact (congrArg (· + _) (h.tasks t)).trans this.symm
  · rcases (Table.get_set_eq_some hi).mp hq with ⟨-, rfl⟩ | ⟨-, hq⟩
    · cases hqw
      exact ⟨_, List.mem_append_right _ (List.mem_singleton_self _), rfl⟩
    · obtain ⟨e, he, hew⟩ := h.entered j q w hq hqc hqw
      exact ⟨e, List.mem_append_left _ he, hew⟩

/-- A future after the release. -/
theorem get_release {j : Nat} {q : Wait ω} (hq : (b.release i).1.waits.get j = some q) :
    ∃ q₀, j ≠ i ∧ b.waits.get j = some q₀ ∧ (q = { q₀ with woken := true } ∨
      q = q₀ ∧ ∀ w, q₀.waker = some w → ∀ e ∈ b.state.waiters, e.waker ≠ w) := by
  obtain ⟨q₀, hq₀, rfl⟩ := Table.get_map_eq_some.mp hq
  obtain ⟨hji, hq₀⟩ := Table.get_erase_eq_some.mp hq₀
  refine ⟨q₀, hji, hq₀, ?_⟩
  split
  · exact .inl rfl
  · rename_i hno
    refine .inr ⟨rfl, fun w hw e he hew => hno ⟨w, ?_, hw⟩⟩
    rw [← hew]
    exact List.mem_map_of_mem he

theorem Good.release (h : b.Good) (i : Nat) : (b.release i).1.Good := by
  -- no future is counted in the generation that begins
  have hnone : ∀ j q, (b.release i).1.waits.get j = some q → q.counted ≠ some (b.releases + 1) := by
    intro j q hq hc
    obtain ⟨q₀, -, hq₀, hor⟩ := get_release hq
    have hc₀ : q₀.counted = some (b.releases + 1) := by
      rcases hor with rfl | ⟨rfl, -⟩ <;> exact hc
    have hle := (h.wait j q₀ hq₀).created
    rcases (h.wait j q₀ hq₀).counted_or with e | e
    · rw [hc₀] at e
      cases e
    · rw [hc₀, Option.some.injEq] at e
      omega
  refine ⟨?_, rfl, Nat.zero_lt_of_lt h.lt, fun j q hq => ?_, ?_, fun t => ?_, fun j q w hq hc => ?_⟩
  · simp only [Barrier.release, h.generation]
    omega
  · obtain ⟨q₀, -, hq₀, hor⟩ := get_release hq
    have hgood := h.wait j q₀ hq₀
    rcases hor with rfl | ⟨rfl, hno⟩
    · exact Wait.Good.mono (p := { q₀ with woken := true })
        ⟨hgood.generation, hgood.created, hgood.counted, hgood.counted_or, hgood.taskId, hgood.waker,
          fun _ _ => rfl⟩
        fun _ => rfl
    · refine hgood.mono fun hr => ?_
      -- a future that is counted in the generation that ends has an entry, so it is woken
      rcases hgood.created.lt_or_eq with hlt | heq
      · exact hgood.woken hr hlt
      · obtain ⟨w, hw⟩ := Option.ne_none_iff_exists'.mp (hgood.waker hr)
        obtain ⟨e, he, hew⟩ := h.entered j q w hq₀ (heq ▸ hgood.counted.mp hr) hw
        exact absurd hew (hno w hw e he)
  · exact (Table.total_eq_zero fun j q hq => if_neg (hnone j q hq)).symm
  · exact (Table.total_eq_zero fun j q hq => if_neg fun hn => hnone j q hq hn.1).symm
  · exact absurd hc (hnone j q hq)

omit [DecidableEq ω] in
theorem countP_eraseIdx {l : List (Waiter ω)} {k : Nat} {t : AsyncRuntime.TaskId}
    (hk : l.findIdx? (·.taskId = t) = some k) (t' : AsyncRuntime.TaskId) :
    (l.eraseIdx k).countP (·.taskId = t') + (if t = t' then 1 else 0) = l.countP (·.taskId = t') := by
  obtain ⟨hlt, ht, -⟩ := List.findIdx?_eq_some_iff_getElem.mp hk
  have ht : l[k].taskId = t := of_decide_eq_true ht
  have hperm := (List.getElem_cons_eraseIdx_perm hlt).countP_eq fun w => decide (w.taskId = t')
  rw [List.countP_cons, ht] at hperm
  simpa using hperm

omit [DecidableEq ω] in
theorem Good.leave (h : b.Good) (hi : b.waits.get i = some p) (ht : b.InTime i p none) :
    ({ b with state := b.state.leave p, waits := b.waits.erase i } : Barrier ω).Good := by
  have hp := h.wait i p hi
  simp only [State.leave]
  split
  · rename_i hr
    refine h.erase hi fun hc => ?_
    rcases hp.counted_or with e | e
    · rw [hc] at e
      cases e
    · rw [hp.counted.mpr e] at hr
      cases hr
  · rename_i hr
    have hr : p.registered = true := by simpa using hr
    have hcount := hp.counted.mp hr
    split
    · rename_i htask
      exact absurd htask (hp.taskId hr)
    · rename_i t htask
      split
      · rename_i hg
        refine h.erase hi fun hc => hg ?_
        rw [hcount] at hc
        rw [h.generation, hp.generation, Option.some.inj hc]
      · rename_i hg
        have hcreated := h.created_eq hi ht (by simpa using hg) hcount
        have hc : p.counted = some b.releases := hcreated ▸ hcount
        split
        · rename_i hnone
          obtain ⟨k, hk⟩ := h.findIdx hi hc htask
          rw [hk] at hnone
          cases hnone
        · rename_i k hk
          have hlt : k < b.state.waiters.length := (List.findIdx?_eq_some_iff_findIdx_eq.mp hk).1
          have hlen := List.length_eraseIdx_of_lt hlt
          have harr := h.arrived
          have hmax := h.lt
          have herase := fun f : Wait ω → Nat => Table.total_erase (f := f) hi
          refine ⟨h.generation, ?_, ?_, fun j q hq => h.wait j q (Table.get_erase_eq_some.mp hq).2, ?_,
            fun t' => ?_,
            fun j q w hq hqc hqw => ?_⟩
          · simp only [hlen, harr]
          · simp only
            omega
          · have := herase (Wait.countedIn b.releases)
            have hpresent := h.present
            rw [Wait.countedIn, if_pos hc] at this
            simp only [members] at hpresent ⊢
            omega
          · have := herase (Wait.countedFor b.releases t')
            have hcnt := countP_eraseIdx hk t'
            have htasks := h.tasks t'
            simp only [Wait.countedFor, hc, htask, true_and, Option.some.injEq] at this
            simp only
            omega
          · obtain ⟨hji, hq⟩ := Table.get_erase_eq_some.mp hq
            rcases (ht _ hc).2 rfl t k htask hk j q w hji hq hqc hqw with e | he
            · cases e
            · exact he

omit [DecidableEq ω] in
/-- A future that finds its generation released was counted in it. -/
theorem Good.passed (h : b.Good) (hi : b.waits.get i = some p)
    (hc : p.counted = none → p.created = b.releases) (hg : b.state.generation ≠ p.generation) :
    p.counted = some p.created ∧ p.created < b.releases := by
  have hp := h.wait i p hi
  have hne : p.created ≠ b.releases := fun e => hg (by rw [h.generation, hp.generation, e])
  exact ⟨hp.counted_or.resolve_left fun e => hne (hc e), lt_of_le_of_ne hp.created hne⟩

omit [DecidableEq ω] in
theorem Good.unregistered (h : b.Good) (hi : b.waits.get i = some p) (hr : p.registered = false) :
    p.counted = none := by
  have hp := h.wait i p hi
  refine hp.counted_or.resolve_right fun e => ?_
  rw [hp.counted.mpr e] at hr
  cases hr

theorem Good.step (h : b.Good) (hc : b.Considerate op) (hs : Stepped b op b' ans) : b'.Good := by
  cases hs with
  | gone => exact h
  | wait => exact h.create
  | passed hi hg =>
    obtain ⟨hcount, hlt⟩ := h.passed hi (hc _ hi).1 hg
    exact h.erase hi fun e => hlt.ne (Option.some.inj (hcount.symm.trans e))
  | renewed hi hg hr ht =>
    have hp := h.wait _ _ hi
    have hcount := hp.counted.mp hr
    have hcreated := h.created_eq hi (hc _ hi).2 hg hcount
    obtain ⟨t, htask⟩ := Option.ne_none_iff_exists'.mp (hp.taskId hr)
    rw [htask, Option.some_or] at ht
    exact h.renew hi (hcreated ▸ hcount) hcreated (htask.trans ht) (((hc _ hi).2 _ hcount).2 hcreated)
  | released => exact h.release _
  | arrived hi hg hr hn =>
    have hnone := h.unregistered hi hr
    exact h.arrive hi hnone ((hc _ hi).1 hnone) hn _ _
  | dropped hi => exact h.leave hi (hc _ hi)

end

/-! ## The answers -/

/-- The leader of the generation `g` completes. -/
def Answer.leads (g : Nat) : Answer → Bool
  | .polled _ (some g') (.ready true) => g' = g
  | _ => false

/-- Another future of the generation `g` completes. -/
def Answer.follows (g : Nat) : Answer → Bool
  | .polled _ (some g') (.ready false) => g' = g
  | _ => false

/-- A future of the generation `g` is dropped after the release, before it completes. -/
def Answer.leaves (g : Nat) : Answer → Bool
  | .dropped _ (some g') releases => g' = g ∧ g < releases
  | _ => false

/-- What the answers say of the generations. -/
structure History (b : Barrier ω) (answers : List Answer) : Prop where
  completed : ∀ i counted leader, .polled i counted (.ready leader) ∈ answers → ∃ g, counted = some g ∧ g < b.releases
  leads : ∀ g, answers.countP (Answer.leads g) = if g < b.releases then 1 else 0
  members : ∀ g, g < b.releases →
    answers.countP (Answer.follows g) + answers.countP (Answer.leaves g) + b.members g + 1 = b.state.parties
  ahead : ∀ g, b.releases ≤ g → answers.countP (Answer.follows g) = 0 ∧ answers.countP (Answer.leaves g) = 0

section
variable {b b' : Barrier ω} {op : Op ω} {ans : Answer} {i : Nat} {p : Wait ω} {answers : List Answer}

omit [DecidableEq ω] in
/-- An answer that says nothing of a generation. -/
theorem History.keep (h : History b answers) (hr : b'.releases = b.releases)
    (hp : b'.state.parties = b.state.parties)
    (hm : ∀ g, g < b.releases → b'.members g = b.members g)
    (hc : ∀ i counted leader, ans ≠ .polled i counted (.ready leader))
    (ha : ∀ g, ans.leads g = false ∧ ans.follows g = false ∧ ans.leaves g = false) :
    History b' (answers ++ [ans]) := by
  refine ⟨fun i counted leader hmem => ?_, fun g => ?_, fun g hg => ?_, fun g hg => ?_⟩
  · rw [hr]
    exact h.completed i counted leader ((List.mem_append.mp hmem).resolve_right fun e => hc _ _ _
      (List.mem_singleton.mp e).symm)
  · rw [List.countP_append, List.countP_singleton, if_neg (by simp [(ha g).1]), hr]
    exact h.leads g
  · rw [hr] at hg
    rw [List.countP_append, List.countP_singleton, if_neg (by simp [(ha g).2.1]), List.countP_append,
      List.countP_singleton,
      if_neg (by simp [(ha g).2.2]), hm g hg, hp]
    exact h.members g hg
  · rw [hr] at hg
    rw [List.countP_append, List.countP_singleton, if_neg (by simp [(ha g).2.1]), List.countP_append,
      List.countP_singleton,
      if_neg (by simp [(ha g).2.2])]
    exact h.ahead g hg

omit [DecidableEq ω] in
theorem members_erase (hi : b.waits.get i = some p) (g : Nat) :
    (b.waits.erase i).total (Wait.countedIn g) + p.countedIn g = b.members g := Table.total_erase hi

omit [DecidableEq ω] in
theorem History.passed (h : History b answers) (hi : b.waits.get i = some p) {g : Nat}
    (hg : p.counted = some g) (hlt : g < b.releases) :
    History (b.pass i p).1 (answers ++ [(b.pass i p).2]) := by
  have hans : (b.pass i p).2 = .polled i (some g) (.ready false) := by rw [pass, hg]
  rw [hans]
  refine ⟨fun j counted leader hmem => ?_, fun g' => ?_, fun g' hg' => ?_, fun g' hg' => ?_⟩
  · rcases List.mem_append.mp hmem with hmem | hmem
    · exact h.completed j counted leader hmem
    · cases List.mem_singleton.mp hmem
      exact ⟨g, rfl, hlt⟩
  · rw [List.countP_append, List.countP_singleton, if_neg (by simp [Answer.leads])]
    exact h.leads g'
  · have hm := h.members g' hg'
    have he := members_erase hi g'
    have hfollows : (answers ++ [Answer.polled i (some g) (.ready false)]).countP (Answer.follows g') =
        answers.countP (Answer.follows g') + p.countedIn g' := by
      simp [List.countP_append, List.countP_singleton, Answer.follows, Wait.countedIn, hg]
    have hleaves : (answers ++ [Answer.polled i (some g) (.ready false)]).countP (Answer.leaves g') =
        answers.countP (Answer.leaves g') := by
      simp [List.countP_append, Answer.leaves]
    simp only [hfollows, hleaves, pass, Barrier.members] at hm he ⊢
    omega
  · have ha := h.ahead g' hg'
    have hne : g ≠ g' := fun e => by
      subst e
      exact absurd hlt (Nat.not_lt.mpr hg')
    simpa [List.countP_append, Answer.follows, Answer.leaves, hne] using ha

omit [DecidableEq ω] in
theorem History.dropped (h : History b answers) (hi : b.waits.get i = some p) {s : State ω}
    (hs : s.parties = b.state.parties) :
    History { b with state := s, waits := b.waits.erase i }
      (answers ++ [Answer.dropped i p.counted b.releases]) := by
  refine ⟨fun j counted leader hmem => ?_, fun g => ?_, fun g hg => ?_, fun g hg => ?_⟩
  · refine h.completed j counted leader ((List.mem_append.mp hmem).resolve_right fun e => ?_)
    cases List.mem_singleton.mp e
  · rw [List.countP_append, List.countP_singleton, if_neg (by simp [Answer.leads])]
    exact h.leads g
  · have hg : g < b.releases := hg
    have hm := h.members g hg
    have he := members_erase hi g
    have hfollows : (answers ++ [Answer.dropped i p.counted b.releases]).countP (Answer.follows g) =
        answers.countP (Answer.follows g) := by
      simp [List.countP_append, Answer.follows]
    have hleaves : (answers ++ [Answer.dropped i p.counted b.releases]).countP (Answer.leaves g) =
        answers.countP (Answer.leaves g) + p.countedIn g := by
      cases hc : p.counted <;> simp [List.countP_append, List.countP_singleton, Answer.leaves,
        Wait.countedIn, hc, hg]
    simp only [hfollows, hleaves, hs, Barrier.members] at hm he ⊢
    omega
  · have ha := h.ahead g hg
    have hleaves : (Answer.dropped i p.counted b.releases).leaves g = false := by
      cases hc : p.counted with
      | none => rfl
      | some g' =>
        have hg : b.releases ≤ g := hg
        simp [Answer.leaves, hg]
    simpa [List.countP_append, Answer.follows, hleaves] using ha

theorem members_release (hi : b.waits.get i = some p) (hc : p.counted = none) (g : Nat) :
    (b.release i).1.members g = b.members g := by
  have hmap : (b.release i).1.members g = (b.waits.erase i).total (Wait.countedIn g) := by
    simp only [Barrier.members, Barrier.release, Table.total_map]
    refine Table.total_congr fun j q _ => ?_
    simp only [Wait.countedIn]
    split <;> rfl
  have he := members_erase hi g
  simp only [Wait.countedIn, hc, reduceCtorEq, if_false, Nat.add_zero] at he
  exact hmap.trans he

theorem History.released (h : History b answers) (hG : b.Good) (hi : b.waits.get i = some p)
    (hc : p.counted = none) (hn : b.state.arrived + 1 = b.state.parties) :
    History (b.release i).1 (answers ++ [(b.release i).2]) := by
  have hrel : (b.release i).1.releases = b.releases + 1 := rfl
  have hans : (b.release i).2 = .polled i (some b.releases) (.ready true) := rfl
  have hfollows : ∀ g, (answers ++ [(b.release i).2]).countP (Answer.follows g) = answers.countP
      (Answer.follows g) :=
    fun g => by simp [List.countP_append, hans, Answer.follows]
  have hleaves : ∀ g, (answers ++ [(b.release i).2]).countP (Answer.leaves g) = answers.countP
      (Answer.leaves g) :=
    fun g => by simp [List.countP_append, hans, Answer.leaves]
  refine ⟨fun j counted leader hmem => ?_, fun g => ?_, fun g hg => ?_, fun g hg => ?_⟩
  · rw [hrel]
    rcases List.mem_append.mp hmem with hmem | hmem
    · obtain ⟨g, hg, hlt⟩ := h.completed j counted leader hmem
      exact ⟨g, hg, hlt.trans (Nat.lt_succ_self _)⟩
    · cases List.mem_singleton.mp hmem
      exact ⟨b.releases, rfl, Nat.lt_succ_self _⟩
  · rw [List.countP_append, List.countP_singleton, h.leads g, hans, hrel]
    simp only [Answer.leads, decide_eq_true_eq]
    split <;> split <;> split <;> omega
  · rw [hfollows, hleaves, members_release hi hc]
    rcases Nat.lt_succ_iff_lt_or_eq.mp hg with hlt | rfl
    · exact h.members g hlt
    · -- all that arrived are still there
      obtain ⟨h₁, h₂⟩ := h.ahead b.releases le_rfl
      have harr := hG.arrived
      have hpres := hG.present
      have hparties : (b.release i).1.state.parties = b.state.parties := rfl
      omega
  · rw [hfollows, hleaves]
    exact h.ahead g ((Nat.le_succ _).trans hg)

omit [DecidableEq ω] in
theorem parties_leave (s : State ω) (p : Wait ω) : (s.leave p).parties = s.parties := by
  simp only [State.leave]
  split
  · rfl
  · split
    · rfl
    · split
      · rfl
      · split <;> rfl

theorem History.step (h : History b answers) (hG : b.Good) (hc : b.Considerate op)
    (hs : Stepped b op b' ans) :
    History b' (answers ++ [ans]) := by
  cases hs with
  | gone => exact h.keep rfl rfl (fun _ _ => rfl) (fun _ _ _ e => by cases e) fun _ => ⟨rfl, rfl, rfl⟩
  | wait =>
    refine h.keep rfl rfl (fun g _ => ?_) (fun _ _ _ e => by cases e) fun _ => ⟨rfl, rfl, rfl⟩
    simp [Barrier.members, Barrier.wait, Wait.countedIn]
  | passed hi hg =>
    obtain ⟨hcount, hlt⟩ := hG.passed hi (hc _ hi).1 hg
    exact h.passed hi hcount hlt
  | @renewed i p task waker taskId hi hg hr ht =>
    refine h.keep rfl rfl (fun g _ => ?_) (fun _ _ _ e => by cases e) fun g => ?_
    · have := Table.total_set (f := Wait.countedIn g) (b := { p with waker := some waker, woken := false }) hi
      exact Nat.add_right_cancel this
    · simp only [renew]
      cases p.counted <;> exact ⟨rfl, rfl, rfl⟩
  | released hi hg hr hn => exact h.released hG hi (hG.unregistered hi hr) hn
  | @arrived i p task waker taskId hi hg hr hn =>
    refine h.keep rfl rfl (fun g hlt => ?_) (fun _ _ _ e => by cases e) fun _ => ⟨rfl, rfl, rfl⟩
    have := Table.total_set (f := Wait.countedIn g) (b := { p with
      taskId := some taskId, registered := true, counted := some b.releases, waker := some waker,
      woken := false }) hi
    simp only [Wait.countedIn, hG.unregistered hi hr, Option.some.injEq, hlt.ne', reduceCtorEq,
      if_false] at this
    exact this
  | dropped hi => exact h.dropped hi (parties_leave _ _)

end

/-! ## Runs -/

section
variable {b b' : Barrier ω} {op : Op ω} {ans : Answer} {i : Nat} {p : Wait ω} {answers : List Answer} {parties g : Nat}

omit [DecidableEq ω] in
theorem good_new (h : Barrier.new parties = some b) :
    (b.Good ∧ History b []) ∧ b.state.parties = parties := by
  simp only [Barrier.new] at h
  split at h
  · rename_i hp
    cases h
    refine ⟨⟨⟨rfl, rfl, hp, fun i p hi => ?_, rfl, fun t => rfl, fun i p w hi => ?_⟩, ?_⟩, rfl⟩
    · cases hi
    · cases hi
    · exact ⟨fun _ _ _ hm => (by cases hm), fun g => rfl, fun g hg => absurd hg (Nat.not_lt_zero g),
        fun g _ => ⟨rfl, rfl⟩⟩
  · cases h

theorem parties_step (hs : Stepped b op b' ans) : b'.state.parties = b.state.parties := by
  cases hs with
  | dropped => exact parties_leave _ _
  | _ => rfl

omit [DecidableEq ω] in
theorem Good.woken (h : b.Good) (hi : b.waits.get i = some p) (hc : p.counted = some g)
    (hg : g < b.releases) :
    p.woken = true := by
  have hp := h.wait i p hi
  have hcount : p.counted = some p.created := hp.counted_or.resolve_left (by simp [hc])
  obtain rfl := Option.some.inj (hc.symm.trans hcount)
  exact hp.woken (hp.counted.mpr hcount) hg

/-- A future of a generation that was released completes when it is polled. -/
theorem Good.completes (h : b.Good) (hi : b.waits.get i = some p) (hc : p.counted = some g)
    (hg : g < b.releases) {task : Option AsyncRuntime.TaskId} {waker : ω}
    (hcons : b.Considerate (.poll i task waker)) :
    ∃ b', b.step (.poll i task waker) = some (b', .polled i (some g) (.ready false)) := by
  have hp := h.wait i p hi
  have hcount : p.counted = some p.created := hp.counted_or.resolve_left (by simp [hc])
  obtain rfl := Option.some.inj (hc.symm.trans hcount)
  obtain ⟨t, ht⟩ := Option.ne_none_iff_exists'.mp (hp.taskId (hp.counted.mpr hcount))
  have hlt := ((hcons p hi).2 p.created hc).1 hg
  have hne : b.state.generation ≠ p.generation := by
    rw [h.generation, hp.generation]
    omega
  refine ⟨(b.pass i p).1, ?_⟩
  simp only [Barrier.step, hi, poll, ht, Option.some_or, Option.map_some, if_pos hne, pass, hc]

/-- The generation is released exactly when the last party arrives. -/
theorem Good.releases_iff (h : b.Good) (hc : b.Considerate op) (hs : Stepped b op b' ans) :
    b'.releases ≠ b.releases ↔ ∃ i p task waker, op = .poll i task waker ∧ b.waits.get i = some p ∧
    p.counted = none ∧
      b.members b.releases + 1 = b.state.parties := by
  have harr := h.arrived.trans h.present
  constructor
  · intro hne
    cases hs with
    | released hi hg hr hn => exact ⟨_, _, _, _, rfl, hi, h.unregistered hi hr, by omega⟩
    | _ => exact absurd rfl hne
  · rintro ⟨i, p, task, waker, rfl, hi, hnone, hn⟩
    cases hs with
    | gone hgone =>
      rw [hgone i task waker rfl] at hi
      cases hi
    | passed hi' hg =>
      cases hi.symm.trans hi'
      rw [(h.passed hi (hc _ hi).1 hg).1] at hnone
      cases hnone
    | renewed hi' hg hr =>
      cases hi.symm.trans hi'
      rw [(h.wait i p hi).counted.mp hr] at hnone
      cases hnone
    | released => exact Nat.succ_ne_self _
    | arrived hi' hg hr hne => exact absurd (by omega) hne

end

/-- In a run whose operations are all considerate: `arrived` is the number of entries and of the
futures that are counted in this generation, and less than `parties`; what completes was counted in
a generation that was released; each generation that was released had one leader and as many members
as there are parties, and those that have not completed and are alive have been woken, and complete
when they are polled; and a generation is released exactly when a future is polled for the first
time that makes the members complete. -/
theorem run_generations {parties : Nat} {b₀ b : Barrier ω} {ops : List (Op ω)} {answers : List Answer}
    (h₀ : Barrier.new parties = some b₀) (hC : Machine.Along Considerate step b₀ ops)
    (h : Machine.run step b₀ ops = some (b, answers)) :
    (b.state.arrived = b.state.waiters.length ∧ b.state.arrived < parties ∧ b.state.arrived = b.members b.releases) ∧
    (∀ i counted leader, .polled i counted (.ready leader) ∈ answers → ∃ g, counted = some g ∧ g < b.releases) ∧
    (∀ g, g < b.releases → answers.countP (Answer.leads g) = 1 ∧
      answers.countP (Answer.leads g) + answers.countP (Answer.follows g) + answers.countP (Answer.leaves g) + b.members g =
        parties) ∧
    (∀ i p g, b.waits.get i = some p → p.counted = some g → g < b.releases → p.woken = true ∧
      ∀ task waker, b.Considerate (.poll i task waker) →
        ∃ b', b.step (.poll i task waker) = some (b', .polled i (some g) (.ready false))) ∧
    ∀ op b' ans, b.Considerate op → b.step op = some (b', ans) →
      (b'.releases ≠ b.releases ↔ ∃ i p task waker, op = .poll i task waker ∧ b.waits.get i = some p ∧ p.counted = none ∧
        b.members b.releases + 1 = parties) := by
  obtain ⟨⟨hG, hH⟩, hparties⟩ : (b.Good ∧ History b ([] ++ answers)) ∧ b.state.parties = parties := by
    refine hC.history (P := fun b answers => (b.Good ∧ History b answers) ∧ b.state.parties = parties)
      (fun b op b' ans os hb hc hs => ?_) (good_new h₀) h
    have hstep := stepped_of_step hs
    exact ⟨⟨hb.1.1.step hc hstep, hb.1.2.step hb.1.1 hc hstep⟩, (parties_step hstep).trans hb.2⟩
  rw [List.nil_append] at hH
  subst hparties
  refine ⟨⟨hG.arrived, hG.lt, hG.arrived.trans hG.present⟩, hH.completed, fun g hg => ?_,
    fun i p g hi hc hg => ?_,
    fun op b' ans hc hs => ?_⟩
  · have hleads := hH.leads g
    rw [if_pos hg] at hleads
    have hmembers := hH.members g hg
    exact ⟨hleads, by omega⟩
  · exact ⟨hG.woken hi hc hg, fun task waker hcons => hG.completes hi hc hg hcons⟩
  · exact hG.releases_iff hc (stepped_of_step hs)

/-- A barrier of two parties. -/
def pair : Barrier Nat := ⟨⟨2, 0, 0, []⟩, 0, .empty⟩

/-- Two futures arrive. -/
def meeting : List (Op Nat) := [.wait, .wait, .poll 0 (some 1) 1, .poll 1 (some 2) 2]

theorem run_generations_meeting : ∃ b answers, Barrier.new 2 = some pair ∧ Machine.run step pair meeting = some (b, answers) ∧
    b.releases = 1 ∧ answers.countP (Answer.leads 0) = 1 ∧
    ∃ b', b.step (.poll 0 (some 1) 1) = some (b', .polled 0 (some 0) (.ready false)) := by
  have h : Machine.run step pair meeting = some (_, _) := rfl
  have hC : Machine.Along Considerate step pair meeting := by
    refine ⟨trivial, fun b _ e => ?_⟩
    cases e
    refine ⟨trivial, fun b _ e => ?_⟩
    cases e
    refine ⟨fun p hp => ?_, fun b _ e => ?_⟩
    · cases hp
      exact ⟨fun _ => rfl, fun g hg => by cases hg⟩
    cases e
    refine ⟨fun p hp => ?_, fun _ _ _ => trivial⟩
    cases hp
    exact ⟨fun _ => rfl, fun g hg => by cases hg⟩
  have hnew : Barrier.new 2 = some pair := rfl
  obtain ⟨-, -, hgen, hnext, -⟩ := run_generations hnew hC h
  refine ⟨_, _, hnew, h, rfl, (hgen 0 (by decide)).1, (hnext 0 _ 0 rfl rfl (by decide)).2 _ _ fun p hp => ?_⟩
  cases hp
  exact ⟨fun e => (by cases e), fun g hg => (by cases hg; exact ⟨fun _ => by decide, fun e => by cases e⟩)⟩

/-- A future that was created before the release and is polled after it completes, and was counted in no
generation. -/
theorem lateWait_passes : ∃ b answers, Machine.run step pair
      [.wait, .wait, .wait, .poll 1 (some 1) 1, .poll 2 (some 2) 2, .poll 0 (some 3) 3] = some (b, answers) ∧
    .polled 0 none (.ready false) ∈ answers ∧
    ¬ ∀ i counted leader, .polled i counted (.ready leader) ∈ answers → ∃ g, counted = some g ∧ g < b.releases := by
  have h : Machine.run step pair [.wait, .wait, .wait, .poll 1 (some 1) 1, .poll 2 (some 2) 2,
    .poll 0 (some 3) 3] =
    some (_, _) := rfl
  have hmem : Answer.polled 0 none (.ready false) ∈ [Answer.done, .done, .done, .polled 1 (some 0) .pending,
    .polled 2 (some 0) (.ready true), .polled 0 none (.ready false)] := by decide
  refine ⟨_, _, h, hmem, fun hall => ?_⟩
  obtain ⟨g, hg, -⟩ := hall 0 none false hmem
  cases hg

end DesCartes.Barrier
