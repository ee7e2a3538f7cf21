import DesCartes.Proof.TaskOutcome

/-!
# What becomes of the tasks of a `JoinSet`

`run_joined_once`: in every run nothing panics, and the tasks that were spawned into a set are those
that `poll_join_next` has given, those that were detached or dropped with the set, and those that
the set still has, each of them once.

A handle is polled again only as long as it is pending, so that the result of its task is there to
be taken (`Owned`); and `poll_join_next` puts back the handles that are pending (`pollSet_owned`).
-/

namespace DesCartes.Tasks

variable {τ ω : Type}

/-- The result of the task has been taken, and its handle is there to be polled again. -/
def Spawned.Taken (q : Spawned τ ω) : Prop :=
  q.holder ≠ .nobody ∧ q.state.completed = true ∧ q.state.result = none

/-- No result is missing, and the handles of a set are its own. -/
structure Owned (s : Tasks τ ω) : Prop where
  there : ∀ t q, s.tasks.get t = some q → ¬q.Taken
  nodup : ∀ k handles, s.sets.get k = some handles → handles.Nodup
  held : ∀ k handles, s.sets.get k = some handles → ∀ t ∈ handles,
    ∃ q, s.tasks.get t = some q ∧ q.holder = .joinSet k

/-- No handle is dropped but those said, and no result is taken but with its handle. -/
structure Drops (dropped : Nat → Prop) (s s' : Tasks τ ω) : Prop where
  next : s.tasks.next ≤ s'.tasks.next
  kept : ∀ t q, s.tasks.get t = some q → ∃ q', s'.tasks.get t = some q' ∧
    (¬dropped t → q'.holder = q.holder)
  taken : ∀ t q', s'.tasks.get t = some q' → q'.Taken → ∃ q, s.tasks.get t = some q ∧ q.Taken

section
variable {s s' s'' : Tasks τ ω} {t : Nat} {q q' : Spawned τ ω} {dropped dropped' : Nat → Prop}

theorem Drops.refl (s : Tasks τ ω) : Drops dropped s s :=
  ⟨le_rfl, fun _ q h => ⟨q, h, fun _ => rfl⟩, fun _ q h ht => ⟨q, h, ht⟩⟩

theorem Drops.trans (h : Drops dropped s s') (h' : Drops dropped s' s'') : Drops dropped s s'' := by
  refine ⟨h.next.trans h'.next, fun t q ht => ?_, fun t q'' ht htaken => ?_⟩
  · obtain ⟨q', ht', hq'⟩ := h.kept t q ht
    obtain ⟨q'', ht'', hq''⟩ := h'.kept t q' ht'
    exact ⟨q'', ht'', fun hd => (hq'' hd).trans (hq' hd)⟩
  · obtain ⟨q', ht', htaken'⟩ := h'.taken t q'' ht htaken
    exact h.taken t q' ht' htaken'

theorem Drops.set (ht : s.tasks.get t = some q) (hholder : ¬dropped t → q'.holder = q.holder)
    (htaken : q'.Taken → q.Taken) (sets : Table (List Nat)) (cancels : List Nat) :
    Drops dropped s ⟨s.tasks.set t q', sets, cancels⟩ := by
  refine ⟨le_rfl, fun u r hu => ?_, fun u r hu hr => ?_⟩
  · by_cases he : u = t
    · subst he
      rw [ht] at hu
      cases hu
      exact ⟨q', Table.get_set_self ht, hholder⟩
    · exact ⟨r, (Table.get_set_eq_some ht).mpr (.inr ⟨he, hu⟩), fun _ => rfl⟩
  · rcases (Table.get_set_eq_some ht).mp hu with ⟨rfl, rfl⟩ | ⟨-, hu⟩
    · exact ⟨q, ht, htaken hr⟩
    · exact ⟨r, hu, hr⟩

theorem Drops.sets (h : Drops dropped s s') (sets : Table (List Nat)) :
    Drops dropped s { s' with sets } := ⟨h.next, h.kept, h.taken⟩

theorem drops_spawn (s : Tasks τ ω) (holder : Holder) : Drops dropped s (s.spawn holder) := by
  refine ⟨Nat.le_succ _, fun t q ht => ⟨q, Table.get_insert_eq_some.mpr (.inr ht), fun _ => rfl⟩,
    fun t q ht htaken => ?_⟩
  rcases Table.get_insert_eq_some.mp ht with ⟨-, rfl⟩ | ht
  · cases htaken.2.1
  · exact ⟨q, ht, htaken⟩

theorem drops_dropHandle (s : Tasks τ ω) {t : Nat} (hd : dropped t) :
    Drops dropped s (s.dropHandle t) := by
  simp only [dropHandle]
  split
  · exact .refl s
  · rename_i q ht
    refine .set ht ?_ ?_ _ _
    exacts [absurd hd, fun h => absurd rfl h.1]

theorem drops_abortDetached (s : Tasks τ ω) (t : Nat) : Drops dropped s (s.abortDetached t) := by
  simp only [abortDetached]
  split
  · exact .refl s
  · rename_i q ht
    refine .set ht ?_ ?_ _ _
    exacts [fun _ => rfl, id]

theorem holder_remove (q : Spawned τ ω) : q.remove.holder = q.holder := by
  simp only [Spawned.remove]
  split <;> rfl

theorem holder_install (q : Spawned τ ω) : q.install.holder = q.holder := by
  simp only [Spawned.install]
  split <;> rfl

theorem drops_cancel (s : Tasks τ ω) (t : Nat) : Drops dropped s (s.cancel t) := by
  simp only [cancel]
  split
  · exact .refl s
  · rename_i q ht
    split
    · refine .set ht (fun _ => holder_remove q) ?_ _ _
      rw [Spawned.Taken, holder_remove, state_remove]
      exact id
    · exact .refl s

theorem drops_drainSpawnQueues (s : Tasks τ ω) : Drops dropped s s.drainSpawnQueues := by
  refine ⟨le_rfl, fun t q ht => ⟨q.install, Table.get_map_eq_some.mpr ⟨q, ht, rfl⟩, fun _ => holder_install q⟩,
    fun t q' ht htaken => ?_⟩
  obtain ⟨q, hq, rfl⟩ := Table.get_map_eq_some.mp ht
  rw [Spawned.Taken, holder_install, state_install] at htaken
  exact ⟨q, hq, htaken⟩

section
variable [DecidableEq ω]

theorem drops_wake (s : Tasks τ ω) (wakers : List ω) : Drops dropped s (s.wake wakers) := by
  refine ⟨le_rfl, fun t q ht => ⟨_, get_wake.mpr ⟨q, ht, rfl⟩, fun _ => ?_⟩, fun t q' ht htaken => ?_⟩
  · split <;> rfl
  · obtain ⟨q, hq, rfl⟩ := get_wake.mp ht
    refine ⟨q, hq, ?_⟩
    split at htaken <;> exact htaken

theorem drops_abort (s : Tasks τ ω) (t : Nat) : Drops dropped s (s.abort t) := by
  simp only [abort]
  split
  · exact .refl s
  · rename_i q ht
    refine .trans (.set ht ?_ ?_ _ _) (drops_wake _ _)
    exacts [fun _ => rfl, id]

theorem drops_complete (s : Tasks τ ω) (t : Nat) (value : τ) : Drops dropped s (s.complete t value) := by
  simp only [complete]
  split
  · exact .refl s
  · rename_i q ht
    split
    · refine .trans (.set ht ?_ ?_ _ _) (drops_wake _ _)
      exacts [fun _ => rfl, fun h => absurd h.2.2 (Option.some_ne_none value)]
    · exact .refl s

omit [DecidableEq ω] in
/-- A loop over handles. -/
theorem drops_foldl {f : Tasks τ ω → Nat → Tasks τ ω} {handles : List Nat}
    (hf : ∀ s, ∀ t ∈ handles, Drops dropped s (f s t)) (s : Tasks τ ω) :
    Drops dropped s (handles.foldl f s) := by
  induction handles generalizing s with
  | nil => exact .refl s
  | cons t handles ih =>
    exact (hf s t List.mem_cons_self).trans
      (ih (fun s u hu => hf s u (List.mem_cons_of_mem _ hu)) (f s t))

end

/-- The sets are the same, but for handles that are not in them any more. -/
theorem Owned.drops (h : s.Owned) (hs : Drops dropped s s')
    (hsets : ∀ k handles', s'.sets.get k = some handles' → handles' = [] ∨ ∃ handles,
      s.sets.get k = some handles ∧ handles'.Nodup ∧ ∀ t ∈ handles', t ∈ handles ∧ ¬dropped t) :
    s'.Owned := by
  refine ⟨fun t q' ht htaken => ?_, fun k handles' hk => ?_, fun k handles' hk t ht => ?_⟩
  · obtain ⟨q, hq, hq'⟩ := hs.taken t q' ht htaken
    exact h.there t q hq hq'
  · rcases hsets k handles' hk with rfl | ⟨handles, -, hnodup, -⟩
    · exact List.nodup_nil
    · exact hnodup
  · rcases hsets k handles' hk with rfl | ⟨handles, hk', -, hmem⟩
    · cases ht
    · obtain ⟨q, hq, hholder⟩ := h.held k handles hk' t (hmem t ht).1
      obtain ⟨q', hq', hsame⟩ := hs.kept t q hq
      exact ⟨q', hq', (hsame (hmem t ht).2).trans hholder⟩

/-- The sets are the same. -/
theorem Owned.same (h : s.Owned) (hs : Drops dropped s s') (hsets : s'.sets = s.sets)
    (hheld : ∀ t q, dropped t → s.tasks.get t = some q → ∀ k, q.holder ≠ .joinSet k) : s'.Owned := by
  refine h.drops hs fun k handles hk => .inr ⟨handles, hsets ▸ hk, h.nodup k handles (hsets ▸ hk),
    fun t ht => ⟨ht, fun hd => ?_⟩⟩
  obtain ⟨q, hq, hholder⟩ := h.held k handles (hsets ▸ hk) t ht
  exact hheld t q hd hq k hholder

end

/-! ## Polls -/

/-- The handles that answer, and what. -/
def readies (polls : List (Nat × Poll (Except JoinError τ))) : List (Nat × Except JoinError τ) :=
  polls.filterMap fun
  | (t, .ready result) => some (t, result)
  | (_, .pending) => none

section
variable {s s' : Tasks τ ω} {t : Nat} {q : Spawned τ ω}

theorem Drops.mono {dropped dropped' : Nat → Prop} (h : Drops dropped s s')
    (hd : ∀ t, dropped t → dropped' t) : Drops dropped' s s' :=
  ⟨h.next, fun t q ht => (h.kept t q ht).imp fun _ h =>
    ⟨h.1, fun hn => h.2 fun hdt => hn (hd t hdt)⟩, h.taken⟩

/-- A handle that is there can be polled; it is dropped if it is ready. -/
theorem pollHandle_owned (hthere : ¬q.Taken) (ht : s.tasks.get t = some q)
    (hholder : q.holder ≠ .nobody) (waker : ω) :
    ∃ s' result, s.pollHandle t waker = some (s', result) ∧ s'.sets = s.sets ∧
    Drops (fun u => u = t ∧ result ≠ .pending) s s' := by
  have hresult : q.state.completed = true → ∃ value, q.state.result = some value := fun hd =>
    Option.ne_none_iff_exists'.mp fun hr => hthere ⟨hholder, hd, hr⟩
  simp only [pollHandle, ht, JoinState.poll]
  split
  · refine ⟨_, _, rfl, rfl, .set ht ?_ ?_ _ _⟩
    exacts [fun hd => absurd ⟨rfl, by simp⟩ hd, fun h => absurd rfl h.1]
  · split
    · rename_i hd
      obtain ⟨value, hvalue⟩ := hresult hd
      rw [hvalue]
      refine ⟨_, _, rfl, rfl, .set ht ?_ ?_ _ _⟩
      exacts [fun hd => absurd ⟨rfl, by simp⟩ hd, fun h => absurd rfl h.1]
    · refine ⟨_, _, rfl, rfl, .set ht ?_ ?_ _ _⟩
      exacts [fun _ => rfl, id]

/-- The loop of `poll_join_next` gives one of the tasks, or it puts all of them back, and none of
them has ended. -/
theorem pollSet_owned {n : Nat} {handles : List Nat} (hn : n ≤ handles.length)
    (hthere : ∀ t q, s.tasks.get t = some q → ¬q.Taken)
    (hheld : ∀ t ∈ handles, ∃ q, s.tasks.get t = some q ∧ q.holder ≠ .nobody) (waker : ω) :
    ∃ s' handles' result, pollSet waker n s handles = some (s', handles', result) ∧ s'.sets = s.sets ∧
      (result = .pending ∧ handles'.Perm handles ∧ Drops (fun _ => False) s s' ∧
        readies (setPolls waker n s handles) = [] ∧
          (∀ t ∈ handles.take n, s.ended t = false) ∨
        ∃ t r, result = .ready (some r) ∧ handles.Perm (t :: handles') ∧ Drops (· = t) s s' ∧
          readies (setPolls waker n s handles) = [(t, r)]) := by
  induction n generalizing s handles with
  | zero => exact ⟨s, handles, .pending, rfl, rfl, .inl ⟨rfl, .refl _, .refl s, rfl, by simp⟩⟩
  | succ n ih =>
    cases handles with
    | nil => simp at hn
    | cons t handles =>
      obtain ⟨q, ht, hholder⟩ := hheld t List.mem_cons_self
      obtain ⟨s₁, r, hpoll, hsets, hdrops⟩ := pollHandle_owned (hthere t q ht) ht hholder waker
      cases r with
      | ready r =>
        refine ⟨s₁, handles, .ready (some r), by simp [pollSet, hpoll], hsets,
          .inr ⟨t, r, rfl, .refl _, ?_, ?_⟩⟩
        · exact hdrops.mono fun u hu => hu.1
        · simp [setPolls, hpoll, readies]
      | pending =>
        have hkept : Drops (fun _ => False) s s₁ := hdrops.mono fun u hu => hu.2 rfl
        obtain ⟨-, q₀, hq₀, ha, hleft⟩ := pollHandle_spec hpoll
        obtain ⟨q', htasks, hstate⟩ := hleft rfl
        have hget := get_of_waker hq₀ htasks hstate
        have hended : s.ended t = false := by
          by_contra he
          exact (ended_iff hq₀ ha).mp (by simpa using he) rfl
        have hlength : n ≤ (handles ++ [t]).length := by
          simp only [List.length_append, List.length_cons, List.length_nil] at hn ⊢
          omega
        have hthere₁ : ∀ t q, s₁.tasks.get t = some q → ¬q.Taken := fun u r hu htaken => by
          obtain ⟨r₀, hr₀, htaken₀⟩ := hkept.taken u r hu htaken
          exact hthere u r₀ hr₀ htaken₀
        have hheld₁ : ∀ u ∈ handles ++ [t], ∃ q, s₁.tasks.get u = some q ∧ q.holder ≠ .nobody :=
          fun u hu => by
          obtain ⟨r, hr, hrholder⟩ := hheld u (by simpa [or_comm] using hu)
          obtain ⟨r', hr', hsame⟩ := hkept.kept u r hr
          exact ⟨r', hr', hsame id ▸ hrholder⟩
        obtain ⟨s', handles', result, hrest, hsets', hcase⟩ := ih hlength hthere₁ hheld₁
        refine ⟨s', handles', result, by simp [pollSet, hpoll, hrest], hsets'.trans hsets, ?_⟩
        have hreadies : readies (setPolls waker (n + 1) s (t :: handles)) = readies
            (setPolls waker n s₁ (handles ++ [t])) := by
          simp [setPolls, hpoll, readies]
        rw [hreadies]
        -- the handle goes to the end
        have hperm : (handles ++ [t]).Perm (t :: handles) := List.perm_append_singleton t handles
        rcases hcase with ⟨rfl, hp, hd, hnone, hended'⟩ | ⟨u, r, rfl, hp, hd, hone⟩
        · refine .inl ⟨rfl, hp.trans hperm, hkept.trans hd, hnone, fun u hu => ?_⟩
          rcases List.mem_cons.mp (List.take_succ_cons ▸ hu) with rfl | hu
          · exact hended
          · rw [← (hget u).2]
            refine hended' u ?_
            rw [List.take_append_of_le_length (Nat.le_of_succ_le_succ hn)]
            exact hu
        · exact .inr ⟨u, r, rfl, hperm.symm.trans hp, (hkept.mono fun _ h => h.elim).trans hd, hone⟩

end

/-! ## Operations -/

section
variable (s : Tasks τ ω) (t : Nat)

theorem sets_dropHandle : (s.dropHandle t).sets = s.sets := by
  simp only [dropHandle]
  split <;> rfl

theorem sets_abortDetached : (s.abortDetached t).sets = s.sets := by
  simp only [abortDetached]
  split <;> rfl

theorem sets_cancel : (s.cancel t).sets = s.sets := by
  simp only [cancel]
  split
  · rfl
  · split <;> rfl

variable [DecidableEq ω]

theorem sets_abort : (s.abort t).sets = s.sets := by
  simp only [abort]
  split <;> rfl

theorem sets_complete (value : τ) : (s.complete t value).sets = s.sets := by
  simp only [complete]
  split
  · rfl
  · split <;> rfl

omit [DecidableEq ω] in
theorem sets_foldl {f : Tasks τ ω → Nat → Tasks τ ω}
    (hf : ∀ (s : Tasks τ ω) t, (f s t).sets = s.sets) (handles : List Nat) :
    (handles.foldl f s).sets = s.sets := by
  induction handles generalizing s with
  | nil => rfl
  | cons t handles ih => exact (ih (f s t)).trans (hf s t)

end

/-- The tasks that an operation spawns into a set. -/
def spawnedInto (s : Tasks τ ω) : Op τ ω → List (Nat × Nat)
  | .spawnInto k => if (s.sets.get k).isSome then [(k, s.tasks.next)] else []
  | _ => []

/-- The tasks of a set that an operation gives, and with what. -/
def joinedFrom (s : Tasks τ ω) (op : Op τ ω) : List (Nat × Nat × Except JoinError τ) :=
  match op with
  | .pollJoinNext k _ => (readies (s.handlePolls op)).map fun e => (k, e)
  | _ => []

/-- The tasks of a set whose handles an operation drops. -/
def droppedFrom (s : Tasks τ ω) : Op τ ω → List (Nat × Nat)
  | .detachAll k | .dropSet k => ((s.sets.get k).getD []).map fun t => (k, t)
  | _ => []

/-- The handles of a set. -/
def handles (s : Tasks τ ω) (k : Nat) : List Nat := (s.sets.get k).getD []

/-- What there is of one set. -/
def ofSet? {α : Type} (k : Nat) (l : List (Nat × α)) : List α := (l.filter (·.1 = k)).map (·.2)

/-- What `poll_join_next` returns. -/
def Answer.given : Answer τ → Option (Nat × Except JoinError τ)
  | .joined k (.ready (some result)) => some (k, result)
  | _ => none

/-- What an operation does to the sets. -/
structure Moves (s s' : Tasks τ ω) (op : Op τ ω) (a : Answer τ) : Prop where
  owned : s'.Owned
  next : s.tasks.next ≤ s'.tasks.next
  spawned : ∀ e ∈ s.spawnedInto op, s.tasks.next ≤ e.2 ∧ e.2 < s'.tasks.next
  once : (s.spawnedInto op).length ≤ 1
  given : a.given.toList = (s.joinedFrom op).map fun e => (e.1, e.2.2)
  conserved : ∀ k, (ofSet? k (s.spawnedInto op) ++ s.handles k).Perm
    (ofSet? k ((s.joinedFrom op).map fun e => (e.1, e.2.1)) ++ ofSet? k (s.droppedFrom op) ++
      s'.handles k)

section
variable [DecidableEq ω] {s s' : Tasks τ ω} {op : Op τ ω} {a : Answer τ}

omit [DecidableEq ω] in
/-- The handles of the sets are the same. -/
theorem Moves.same (howned : s'.Owned) (hnext : s.tasks.next ≤ s'.tasks.next)
    (hhandles : ∀ k, s'.handles k = s.handles k) (hspawned : s.spawnedInto op = [])
    (hjoined : s.joinedFrom op = []) (hdropped : s.droppedFrom op = []) (ha : a.given = none) :
    Moves s s' op a := by
  refine ⟨howned, hnext, ?_, ?_, ?_, fun k => ?_⟩
  · simp [hspawned]
  · simp [hspawned]
  · simp [ha, hjoined]
  · simp [hspawned, hjoined, hdropped, hhandles, ofSet?]

omit [DecidableEq ω] in
/-- Nothing is done to the sets, and to their handles. -/
theorem Owned.moves (h : s.Owned) {dropped : Nat → Prop} (hd : Drops dropped s s')
    (hsets : s'.sets = s.sets)
    (hheld : ∀ t q, dropped t → s.tasks.get t = some q → ∀ k, q.holder ≠ .joinSet k)
    (hspawned : s.spawnedInto op = []) (hjoined : s.joinedFrom op = [])
    (hdropped : s.droppedFrom op = []) (ha : a.given = none) : Moves s s' op a :=
  .same (h.same hd hsets hheld) hd.next
    (fun k => by rw [handles, hsets]; rfl) hspawned hjoined hdropped ha

omit [DecidableEq ω] in
theorem Owned.quiet (h : s.Owned) (hd : Drops (fun _ => False) s s') (hsets : s'.sets = s.sets)
    (hspawned : s.spawnedInto op = []) (hjoined : s.joinedFrom op = [])
    (hdropped : s.droppedFrom op = []) (ha : a.given = none) : Moves s s' op a :=
  h.moves hd hsets (fun _ _ h => h.elim) hspawned hjoined hdropped ha

omit [DecidableEq ω] in
theorem step_newSet (h : s.Owned) : Moves s { s with sets := s.sets.insert [] } .newSet .done := by
  have hfresh : s.sets.get s.sets.next = none := s.sets.get_of_le _ le_rfl
  have hd : Drops (fun _ => False) s s := .refl s
  refine .same (h.drops (hd.sets _) fun k handles hk => ?_) le_rfl (fun k => ?_) rfl rfl rfl rfl
  · rcases Table.get_insert_eq_some.mp hk with ⟨-, rfl⟩ | hk
    · exact .inl rfl
    · exact .inr ⟨handles, hk, h.nodup k handles hk, fun t ht => ⟨ht, id⟩⟩
  · show ((s.sets.insert []).get k).getD [] = (s.sets.get k).getD []
    simp only [Table.insert]
    split
    · rename_i hk
      rw [hk, hfresh]
      rfl
    · rfl

omit [DecidableEq ω] in
theorem step_spawnInto (h : s.Owned) {k : Nat} {handles : List Nat} (hk : s.sets.get k = some handles) :
    Moves s { s.spawn (.joinSet k) with sets := s.sets.set k (handles ++ [s.tasks.next]) }
      (.spawnInto k) .done := by
  have hspawned : s.spawnedInto (.spawnInto k) = [(k, s.tasks.next)] := by simp [spawnedInto, hk]
  have hd : Drops (fun _ => False) s (s.spawn (.joinSet k)) := drops_spawn s _
  have hfresh : ∀ {j l}, s.sets.get j = some l → s.tasks.next ∉ l := fun hj hmem => by
    obtain ⟨q, hq, -⟩ := h.held _ _ hj _ hmem
    exact absurd (Table.lt_next hq) (Nat.lt_irrefl _)
  refine ⟨⟨fun t q ht htaken => ?_, fun j l hj => ?_, fun j l hj t ht => ?_⟩, Nat.le_succ _, ?_, ?_,
    rfl, fun j => ?_⟩
  · obtain ⟨q₀, hq₀, htaken₀⟩ := hd.taken t q ht htaken
    exact h.there t q₀ hq₀ htaken₀
  · rcases (Table.get_set_eq_some hk).mp hj with ⟨rfl, rfl⟩ | ⟨-, hj⟩
    · rw [List.nodup_append]
      refine ⟨h.nodup _ _ hk, List.nodup_singleton _, fun t ht u hu => ?_⟩
      rw [List.mem_singleton.mp hu]
      exact fun he => hfresh hk (he ▸ ht)
    · exact h.nodup j l hj
  · have hold : ∀ {l}, s.sets.get j = some l → t ∈ l → ∃ q,
        (s.spawn (.joinSet k)).tasks.get t = some q ∧ q.holder = .joinSet j := by
      intro l hj ht
      obtain ⟨q, hq, hholder⟩ := h.held j l hj t ht
      obtain ⟨q', hq', hsame⟩ := hd.kept t q hq
      exact ⟨q', hq', (hsame id).trans hholder⟩
    rcases (Table.get_set_eq_some hk).mp hj with ⟨rfl, rfl⟩ | ⟨-, hj⟩
    · rcases List.mem_append.mp ht with ht | ht
      · exact hold hk ht
      · rw [List.mem_singleton.mp ht]
        exact ⟨_, Table.get_insert_eq_some.mpr (.inl ⟨rfl, rfl⟩), rfl⟩
    · exact hold hj ht
  · rw [hspawned]
    intro e he
    rw [List.mem_singleton.mp he]
    exact ⟨le_rfl, Nat.lt_succ_self _⟩
  · rw [hspawned]
    exact le_rfl
  · rw [hspawned]
    show (ofSet? j [(k, s.tasks.next)] ++ s.handles j).Perm
      ([] ++ ((s.sets.set k (handles ++ [s.tasks.next])).get j).getD [])
    by_cases hj : j = k
    · subst hj
      rw [Table.get_set_self hk, Tasks.handles, hk]
      simpa [ofSet?] using @List.perm_append_comm _ [s.tasks.next] handles
    · have hget : (s.sets.set k (handles ++ [s.tasks.next])).get j = s.sets.get j := by
        simp [Table.set, hj]
      rw [hget]
      simp [ofSet?, Ne.symm hj, Tasks.handles]

omit [DecidableEq ω] in
/-- A task is in one set only. -/
theorem Owned.disjoint (h : s.Owned) {j k : Nat} {l handles : List Nat} (hj : s.sets.get j = some l)
    (hk : s.sets.get k = some handles) (hne : j ≠ k) {t : Nat} (ht : t ∈ l) : t ∉ handles :=
  fun ht' => by
  obtain ⟨q, hq, hholder⟩ := h.held j l hj t ht
  obtain ⟨q', hq', hholder'⟩ := h.held k handles hk t ht'
  rw [hq] at hq'
  cases hq'
  rw [hholder] at hholder'
  cases hholder'
  exact hne rfl

omit [DecidableEq ω] in
/-- The handles of a set are dropped. -/
theorem Owned.release (h : s.Owned) {k : Nat} {handles : List Nat}
    (hk : s.sets.get k = some handles) (hd : Drops (· ∈ handles) s s') {sets : Table (List Nat)}
    (hothers : ∀ j, j ≠ k → sets.get j = s.sets.get j) (hnone : (sets.get k).getD [] = [])
    (hspawned : s.spawnedInto op = []) (hjoined : s.joinedFrom op = [])
    (hdropped : s.droppedFrom op = handles.map fun t => (k, t)) :
    Moves s { s' with sets } op .done := by
  refine ⟨h.drops (hd.sets sets) fun j l hj => ?_, hd.next, ?_, ?_, ?_, fun j => ?_⟩
  · have hj : sets.get j = some l := hj
    by_cases hjk : j = k
    · subst hjk
      rw [hj] at hnone
      exact .inl hnone
    · rw [hothers j hjk] at hj
      exact .inr ⟨l, hj, h.nodup j l hj, fun t ht => ⟨ht, h.disjoint hj hk hjk ht⟩⟩
  · simp [hspawned]
  · simp [hspawned]
  · rw [hjoined]
    rfl
  · rw [hspawned, hjoined, hdropped]
    show (s.handles j).Perm ([] ++ ofSet? j (handles.map fun t => (k, t)) ++ (sets.get j).getD [])
    by_cases hjk : j = k
    · subst hjk
      rw [hnone, Tasks.handles, hk]
      simp [ofSet?, List.filter_map, Function.comp_def]
    · rw [hothers j hjk]
      simp [ofSet?, Ne.symm hjk, Tasks.handles, List.filter_map, Function.comp_def]

omit [DecidableEq ω] in
theorem step_pollJoinNext_moves (h : s.Owned) {k : Nat} {handles : List Nat}
    (hk : s.sets.get k = some handles) (waker : ω) :
    ∃ s' a, s.pollJoinNext k handles waker = some (s', a) ∧ Moves s s' (.pollJoinNext k waker) a ∧
      (a = .joined k .pending → handles ≠ [] ∧ ∀ t ∈ handles, s.ended t = false) := by
  have hpolls : s.handlePolls (.pollJoinNext k waker) = setPolls waker handles.length s handles := by
    simp only [handlePolls, hk, Option.elim_some]
  simp only [pollJoinNext]
  split
  · rename_i hnil
    refine ⟨s, _, rfl, h.quiet (.refl s) rfl rfl ?_ rfl rfl, fun he => by cases he⟩
    simp [joinedFrom, hpolls, hnil, setPolls, readies]
  · rename_i hne
    have hheld : ∀ t ∈ handles, ∃ q, s.tasks.get t = some q ∧ q.holder ≠ .nobody := fun t ht => by
      obtain ⟨q, hq, hholder⟩ := h.held k handles hk t ht
      exact ⟨q, hq, by simp [hholder]⟩
    obtain ⟨s', handles', result, hpoll, hsets, hcase⟩ := pollSet_owned le_rfl h.there hheld waker
    have hget : ∀ j, (s'.sets.set k handles').get j = if j = k then some handles' else s.sets.get j :=
      fun j => by
      simp [Table.set, hsets, hk]
    refine ⟨_, _, by rw [hpoll]; rfl, ?_⟩
    rcases hcase with ⟨rfl, hperm, hd, hreadies, hended⟩ | ⟨t, r, rfl, hperm, hd, hreadies⟩
    · have hjoined : s.joinedFrom (.pollJoinNext k waker) = [] := by simp [joinedFrom, hpolls, hreadies]
      refine ⟨⟨h.drops (hd.sets _) fun j l hj => ?_, hd.next, ?_, ?_, ?_, fun j => ?_⟩,
        fun _ => ⟨hne, ?_⟩⟩
      · have hj : (s'.sets.set k handles').get j = some l := hj
        rw [hget] at hj
        split at hj
        · rename_i hjk
          cases hj
          subst hjk
          exact .inr ⟨handles, hk, hperm.nodup_iff.mpr (h.nodup j handles hk),
            fun t ht => ⟨hperm.mem_iff.mp ht, id⟩⟩
        · exact .inr ⟨l, hj, h.nodup j l hj, fun t ht => ⟨ht, id⟩⟩
      · simp [spawnedInto]
      · simp [spawnedInto]
      · rw [hjoined]
        rfl
      · rw [hjoined]
        show (s.handles j).Perm (((s'.sets.set k handles').get j).getD [])
        rw [hget]
        split
        · rename_i hjk
          subst hjk
          rw [Tasks.handles, hk]
          exact hperm.symm
        · exact .refl _
      · rwa [List.take_length] at hended
    · have hjoined : s.joinedFrom (.pollJoinNext k waker) = [(k, t, r)] := by
        simp [joinedFrom, hpolls, hreadies]
      have hnodup : (t :: handles').Nodup := hperm.nodup_iff.mp (h.nodup k handles hk)
      refine ⟨⟨h.drops (hd.sets _) fun j l hj => ?_, hd.next, ?_, ?_, ?_, fun j => ?_⟩,
        fun he => by cases he⟩
      · have hj : (s'.sets.set k handles').get j = some l := hj
        rw [hget] at hj
        split at hj
        · rename_i hjk
          cases hj
          subst hjk
          refine .inr ⟨handles, hk, (List.nodup_cons.mp hnodup).2,
            fun u hu => ⟨hperm.mem_iff.mpr (List.mem_cons_of_mem _ hu), ?_⟩⟩
          rintro rfl
          exact (List.nodup_cons.mp hnodup).1 hu
        · rename_i hjk
          refine .inr ⟨l, hj, h.nodup j l hj, fun u hu => ⟨hu, ?_⟩⟩
          rintro rfl
          exact h.disjoint hj hk hjk hu (hperm.mem_iff.mpr List.mem_cons_self)
      · simp [spawnedInto]
      · simp [spawnedInto]
      · rw [hjoined]
        rfl
      · rw [hjoined]
        show (s.handles j).Perm (ofSet? j [(k, t)] ++ [] ++ ((s'.sets.set k handles').get j).getD [])
        rw [hget]
        split
        · rename_i hjk
          subst hjk
          rw [Tasks.handles, hk]
          simpa [ofSet?] using hperm
        · rename_i hjk
          simp [ofSet?, Ne.symm hjk, Tasks.handles]

/-- No operation panics. -/
theorem step_moves (h : s.Owned) (op : Op τ ω) : ∃ s' a, s.step op = some (s', a) ∧ Moves s s' op a := by
  cases op with
  | spawn => exact ⟨_, _, rfl, h.quiet (drops_spawn s _) rfl rfl rfl rfl rfl⟩
  | poll t waker =>
    simp only [step, ofCaller]
    split
    · rename_i hc
      obtain ⟨q, ht, hholder⟩ := (Option.any_eq_true _ _).mp hc
      have hholder : q.holder = .caller := by simpa using hholder
      obtain ⟨s', result, hpoll, hsets, hdrops⟩ := pollHandle_owned (h.there t q ht) ht
        (by simp [hholder]) waker
      refine ⟨s', .polled t result, by simp [hpoll],
        h.moves hdrops hsets (fun u r hu hr k hk => ?_) rfl rfl rfl rfl⟩
      rw [hu.1, ht] at hr
      cases hr
      rw [hholder] at hk
      cases hk
    · exact ⟨_, _, rfl, h.quiet (.refl s) rfl rfl rfl rfl rfl⟩
  | abort t =>
    refine ⟨_, _, rfl, h.quiet ?_ ?_ rfl rfl rfl rfl⟩
    · exact ofCaller_cases (drops_abort s t) (.refl s)
    · exact ofCaller_cases (P := fun s' : Tasks τ ω => s'.sets = s.sets) (sets_abort s t) rfl
  | abortDetached t =>
    exact ⟨_, _, rfl, h.quiet (drops_abortDetached s t) (sets_abortDetached s t) rfl rfl rfl rfl⟩
  | dropHandle t =>
    simp only [step, ofCaller]
    split
    · rename_i hc
      obtain ⟨q, ht, hholder⟩ := (Option.any_eq_true _ _).mp hc
      have hd : Drops (· = t) s (s.dropHandle t) := drops_dropHandle s rfl
      refine ⟨_, _, rfl, h.moves hd (sets_dropHandle s t) (fun u r hu hr k hk => ?_) rfl rfl rfl
        rfl⟩
      rw [hu, ht] at hr
      cases hr
      simp [hk] at hholder
    · exact ⟨_, _, rfl, h.quiet (.refl s) rfl rfl rfl rfl rfl⟩
  | newSet => exact ⟨_, _, rfl, step_newSet h⟩
  | spawnInto k =>
    simp only [step, ofSet]
    split
    · rename_i hk
      exact ⟨_, _, rfl, h.quiet (.refl s) rfl (by simp [spawnedInto, hk]) rfl rfl rfl⟩
    · rename_i handles hk
      exact ⟨_, _, rfl, step_spawnInto h hk⟩
  | pollJoinNext k waker =>
    simp only [step, ofSet]
    split
    · rename_i hk
      exact ⟨_, _, rfl, h.quiet (.refl s) rfl rfl
        (by simp [joinedFrom, handlePolls, hk, readies]) rfl rfl⟩
    · rename_i handles hk
      obtain ⟨s', a, hpoll, hmoves, -⟩ := step_pollJoinNext_moves h hk waker
      exact ⟨s', a, hpoll, hmoves⟩
  | abortAll k =>
    simp only [step, ofSet]
    split
    · exact ⟨_, _, rfl, h.quiet (.refl s) rfl rfl rfl rfl rfl⟩
    · rename_i handles hk
      exact ⟨_, _, rfl, h.quiet (drops_foldl (fun s t _ => drops_abort s t) s)
        (sets_foldl s (fun s t => sets_abort s t) handles) rfl rfl rfl rfl⟩
  | detachAll k =>
    simp only [step, ofSet]
    split
    · rename_i hk
      exact ⟨_, _, rfl, h.quiet (.refl s) rfl rfl rfl (by simp [droppedFrom, hk]) rfl⟩
    · rename_i handles hk
      refine ⟨_, _, rfl, h.release hk (drops_foldl (fun s t ht => drops_dropHandle s ht) s)
        (fun j hj => ?_) ?_ rfl rfl ?_⟩
      · simp [Table.set, hj]
      · simp [Table.set, hk]
      · simp [droppedFrom, hk]
  | dropSet k =>
    simp only [step, ofSet]
    split
    · rename_i hk
      exact ⟨_, _, rfl, h.quiet (.refl s) rfl rfl rfl (by simp [droppedFrom, hk]) rfl⟩
    · rename_i handles hk
      have haborted : Drops (· ∈ handles) s (handles.foldl abort s) :=
        drops_foldl (fun s t _ => drops_abort s t) s
      refine ⟨_, _, rfl, h.release hk
        (haborted.trans (drops_foldl (fun s t ht => drops_dropHandle s ht) _))
        (fun j hj => ?_) ?_ rfl rfl ?_⟩
      · simp [Table.erase, hj]
      · simp [Table.erase]
      · simp [droppedFrom, hk]
  | complete t value =>
    exact ⟨_, _, rfl, h.quiet (drops_complete s t value) (sets_complete s t value) rfl rfl rfl rfl⟩
  | drainSpawnQueues => exact ⟨_, _, rfl, h.quiet (drops_drainSpawnQueues s) rfl rfl rfl rfl rfl⟩
  | cancel t => exact ⟨_, _, rfl, h.quiet (drops_cancel s t) (sets_cancel s t) rfl rfl rfl rfl⟩
  | wake waker => exact ⟨_, _, rfl, h.quiet (drops_wake s _) rfl rfl rfl rfl rfl⟩

end

/-! ## Runs -/

/-- The tasks, and what has become of those that were spawned into a set: each with its set. -/
structure Joins (τ ω : Type) where
  tasks : Tasks τ ω
  spawned : List (Nat × Nat)
  joined : List (Nat × Nat × Except JoinError τ)
  dropped : List (Nat × Nat)

namespace Joins

/-- Before a task is spawned. -/
def new : Joins τ ω := ⟨.empty, [], [], []⟩

variable [DecidableEq ω]

/-- One operation; none where it panics. -/
def step (j : Joins τ ω) (op : Op τ ω) : Option (Joins τ ω × Answer τ) :=
  (j.tasks.step op).map fun (tasks, answer) =>
    (⟨tasks, j.spawned ++ j.tasks.spawnedInto op, j.joined ++ j.tasks.joinedFrom op,
      j.dropped ++ j.tasks.droppedFrom op⟩, answer)

/-- After the operations that were answered so. -/
structure Conserved (j : Joins τ ω) (answers : List (Answer τ)) : Prop where
  owned : j.tasks.Owned
  fresh : ∀ e ∈ j.spawned, e.2 < j.tasks.tasks.next
  once : (j.spawned.map (·.2)).Nodup
  given : answers.filterMap Answer.given = j.joined.map fun e => (e.1, e.2.2)
  conserved : ∀ k, (ofSet? k j.spawned).Perm
    (ofSet? k (j.joined.map fun e => (e.1, e.2.1)) ++ ofSet? k j.dropped ++ j.tasks.handles k)

omit [DecidableEq ω] in
theorem ofSet?_append {α : Type} (k : Nat) (l l' : List (Nat × α)) :
    ofSet? k (l ++ l') = ofSet? k l ++ ofSet? k l' := by
  simp [ofSet?]

theorem Conserved.step {j : Joins τ ω} {answers : List (Answer τ)} (h : j.Conserved answers)
    (op : Op τ ω) :
    ∃ j' a, j.step op = some (j', a) ∧ j'.Conserved (answers ++ [a]) := by
  obtain ⟨s', a, hstep, hmoves⟩ := step_moves h.owned op
  refine ⟨_, a, by rw [Joins.step, hstep]; rfl, hmoves.owned, fun e he => ?_, ?_, ?_, fun k => ?_⟩
  · rcases List.mem_append.mp he with he | he
    · exact (h.fresh e he).trans_le hmoves.next
    · exact (hmoves.spawned e he).2
  · rw [List.map_append, List.nodup_append]
    refine ⟨h.once, ?_, fun t ht u hu => ?_⟩
    · have honce := hmoves.once
      cases hs : j.tasks.spawnedInto op with
      | nil => exact List.nodup_nil
      | cons e l =>
        rw [hs, List.length_cons] at honce
        have hl : l = [] := List.length_eq_zero_iff.mp (by omega)
        simp [hl]
    · obtain ⟨e, he, rfl⟩ := List.mem_map.mp ht
      obtain ⟨e', he', rfl⟩ := List.mem_map.mp hu
      have := h.fresh e he
      have := (hmoves.spawned e' he').1
      omega
  · have hgiven := hmoves.given
    rw [List.filterMap_append, h.given, List.map_append, ← hgiven]
    cases hg : a.given <;> simp [hg]
  · have hold := h.conserved k
    have hnew := hmoves.conserved k
    rw [List.perm_iff_count] at hold hnew ⊢
    intro t
    have hold := hold t
    have hnew := hnew t
    simp only [List.map_append, ofSet?_append, List.count_append] at hold hnew ⊢
    omega

theorem Conserved.run {j : Joins τ ω} {answers : List (Answer τ)} (h : j.Conserved answers)
    (ops : List (Op τ ω)) :
    ∃ j' answers', Machine.run Joins.step j ops = some (j', answers') ∧
    j'.Conserved (answers ++ answers') := by
  induction ops generalizing j answers with
  | nil => exact ⟨j, [], rfl, by rwa [List.append_nil]⟩
  | cons op ops ih =>
    obtain ⟨j₁, a, hstep, h₁⟩ := h.step op
    obtain ⟨j', answers', hrun, h'⟩ := ih h₁
    refine ⟨j', a :: answers', Machine.run_cons.mpr ⟨j₁, a, answers', hstep, hrun, rfl⟩, ?_⟩
    rwa [List.append_assoc] at h'

omit [DecidableEq ω] in
theorem conserved_new : (new : Joins τ ω).Conserved [] := by
  refine ⟨⟨fun t q ht => ?_, fun k l hk => ?_, fun k l hk => ?_⟩, fun e he => ?_, List.nodup_nil, rfl,
    fun k => .refl _⟩
  · cases ht
  · cases hk
  · cases hk
  · cases he

/-- In every run nothing panics, and of each set the tasks that were spawned into it, all of them
different, are those that `poll_join_next` has given, those whose handles were dropped, by
`detach_all` or with the set, and those that the set still has: each of them once. Where
`poll_join_next` gives none, none of those has completed or been cancelled. -/
theorem run_joined_once (ops : List (Op τ ω)) :
    ∃ j answers, Machine.run step (new : Joins τ ω) ops = some (j, answers) ∧
    (j.spawned.map (·.2)).Nodup ∧
      answers.filterMap Answer.given = j.joined.map (fun e => (e.1, e.2.2)) ∧
      (∀ k, (ofSet? k j.spawned).Perm
        (ofSet? k (j.joined.map fun e => (e.1, e.2.1)) ++ ofSet? k j.dropped ++ j.tasks.handles k)) ∧
      ∀ k waker tasks, j.tasks.step (.pollJoinNext k waker) = some (tasks, .joined k .pending) →
        j.tasks.handles k ≠ [] ∧ ∀ t ∈ j.tasks.handles k, j.tasks.ended t = false := by
  obtain ⟨j, answers, hrun, h⟩ := conserved_new.run ops
  rw [List.nil_append] at h
  refine ⟨j, answers, hrun, h.once, h.given, h.conserved, fun k waker tasks hpoll => ?_⟩
  simp only [Tasks.step, ofSet] at hpoll
  split at hpoll
  · cases hpoll
  · rename_i handles hk
    obtain ⟨s', a, hstep, -, hpending⟩ := step_pollJoinNext_moves h.owned hk waker
    rw [hstep] at hpoll
    cases hpoll
    rw [Tasks.handles, hk]
    exact hpending rfl

end Joins

end DesCartes.Tasks
