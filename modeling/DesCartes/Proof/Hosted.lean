import DesCartes.Impl.Hosted
import DesCartes.Proof.Scheduler.Session

/-!
# What a component sees of its scheduler

`Session.Effect` is what an operation does to the heap: an event is added, or one is taken and those
of cancelled tasks in front of it are dropped. So the events for a component (`inbox`) are those
that were scheduled for it and have not been popped, in no order that the component could rely on.

* `Hosted.run_rule`: what holds of a component, its inbox and its history, when it is kept by an
  event that arrives from other code, by any event of the inbox that is processed and by the calls
  of its owner, holds in every run.
-/

namespace DesCartes

variable {κ ε τ ρ φ μ : Type}

/-- The event of an entry that is for the component with the key, with its time. -/
def EventEntry.mailFor (self : Uuid) (e : EventEntry ε) : Option (SimTime × ε) := (e.eventFor self).map (e.time, ·)

/-- The event that was scheduled, if the answer is one of an operation that scheduled one. -/
def Answer.scheduled? : Answer ε → Option (EventEntry ε)
  | scheduled event => some event
  | _ => none

namespace Scheduler

/-- `s'` is `s` after a pop that has returned `o`. -/
def PoppedBy (s s' : Scheduler ε τ ρ) : Option (EventEntry ε) → Prop
  | none => ∃ d, Exhausted s s' d
  | some e => ∃ d, Popped s s' d e

theorem pop_poppedBy (s : Scheduler ε τ ρ) : s.PoppedBy s.pop.2 s.pop.1 := by
  obtain ⟨d, h⟩ := pop_spec s
  generalize s.pop = q at h
  obtain ⟨_ | e, s'⟩ := q
  · exact ⟨d, h⟩
  · exact ⟨d, h.1⟩

theorem popWithPolicy_poppedBy [EventFrontierPolicy φ] (s : Scheduler ε τ ρ) (policy : φ) :
    s.PoppedBy (s.popWithPolicy policy).2.1 (s.popWithPolicy policy).1 := by
  obtain ⟨d, h⟩ := popWithPolicy_spec s policy
  generalize s.popWithPolicy policy = q at h
  obtain ⟨_ | e, s', p⟩ := q
  · exact ⟨d, h⟩
  · exact ⟨d, h.1⟩

end Scheduler

namespace Session

open Scheduler

/-! ## The heap -/

/-- The heap. -/
def heap (r : Session ε τ ρ) : List (EventEntry ε) := r.scheduler.events.toList

/-- What an operation does to the heap and the clock. -/
structure Effect (r r' : Session ε τ ρ) (op : Op ε τ ρ φ) (o : Answer ε) : Prop where
  perm : ∃ d, (∀ e ∈ d, e.taskId ≠ none) ∧ (o.scheduled?.toList ++ r.heap).Perm (d ++ o.popped?.toList ++ r'.heap)
  clock : r'.scheduler.clock = o.popped?.elim r.scheduler.clock EventEntry.time
  counter : r'.scheduler.nextEventId = r.scheduler.nextEventId + o.scheduled?.toList.length
  added : ∀ e, o.scheduled? = some e → e.seq = r.scheduler.nextEventId + 1 ∧ r.scheduler.clock ≤ e.time
  least : ∀ e, o.popped? = some e → ∀ x ∈ r'.heap, e.time ≤ x.time
  /-- Events for components come from `schedule` only. -/
  sender : ∀ e, o.scheduled? = some e → ∀ self v, e.eventFor self = some v → ∃ delay, op = .schedule delay self v

theorem effect_same {r r' : Session ε τ ρ} (op : Op ε τ ρ φ) {o : Answer ε}
    (hs : o.scheduled? = none) (hp : o.popped? = none)
    (he : r'.scheduler.events = r.scheduler.events) (hc : r'.scheduler.clock = r.scheduler.clock)
    (hn : r'.scheduler.nextEventId = r.scheduler.nextEventId) : Effect r r' op o := by
  refine ⟨⟨[], nofun, ?_⟩, ?_, ?_, ?_, ?_, ?_⟩
  · rw [hs, hp, heap, heap, he]
    exact .refl _
  · rw [hp]
    exact hc
  · rw [hs]
    exact hn
  all_goals simp [hs, hp]

theorem effect_scheduled {r r' : Session ε τ ρ} (op : Op ε τ ρ φ) {e : EventEntry ε}
    (he : r'.scheduler.events = r.scheduler.events.push e)
    (hc : r'.scheduler.clock = r.scheduler.clock)
    (hn : r'.scheduler.nextEventId = r.scheduler.nextEventId + 1)
    (hseq : e.seq = r.scheduler.nextEventId + 1) (htime : r.scheduler.clock ≤ e.time)
    (hsender : ∀ self v, e.eventFor self = some v → ∃ delay, op = .schedule delay self v) :
    Effect r r' op (.scheduled e) := by
  refine ⟨⟨[], nofun, ?_⟩, hc, hn, ?_, nofun, ?_⟩
  · simpa [heap, he, Answer.scheduled?, Answer.popped?] using (BinaryHeap.push_perm r.scheduler.events e).symm
  · rintro _ ⟨⟩
    exact ⟨hseq, htime⟩
  · rintro _ ⟨⟩
    exact hsender

/-- A pop, and what it does to the tasks afterwards. -/
theorem effect_popped {r r' : Session ε τ ρ} (op : Op ε τ ρ φ) {s' : Scheduler ε τ ρ}
    {o : Option (EventEntry ε)} (h : r.scheduler.PoppedBy s' o)
    (he : r'.scheduler.events = s'.events) (hc : r'.scheduler.clock = s'.clock)
    (hn : r'.scheduler.nextEventId = s'.nextEventId) : Effect r r' op (.popped o) := by
  have hdropped : ∀ {d l : List (EventEntry ε)} {s : Scheduler ε τ ρ}, Took r.scheduler s d l → ∀ e ∈ d,
      e.taskId ≠ none := by
    intro d l s ht e hd hnone
    obtain ⟨id, -, hid⟩ := ht.dropped e hd
    rw [hid] at hnone
    cases hnone
  cases o with
  | none =>
    obtain ⟨d, h⟩ := h
    refine ⟨⟨d, hdropped h.took, ?_⟩, hc.trans h.took.clock, ?_, ?_, ?_, ?_⟩
    · simpa [heap, he, Answer.scheduled?, Answer.popped?] using h.took.perm
    · rw [hn, h.took.keep]
      rfl
    all_goals simp [Answer.scheduled?, Answer.popped?]
  | some e =>
    obtain ⟨d, h⟩ := h
    refine ⟨⟨d, hdropped h.took, ?_⟩, hc.trans h.clock, ?_, ?_, ?_, ?_⟩
    · simpa [heap, he, Answer.scheduled?, Answer.popped?] using h.perm
    · rw [hn, h.keep]
      rfl
    · simp [Answer.scheduled?]
    · rintro _ ⟨⟩ x hx
      rw [heap, he] at hx
      exact h.least x hx
    · simp [Answer.scheduled?]

theorem start_keep (r : Session ε τ ρ) (o : Option (EventEntry ε)) :
    (r.start o).scheduler.events = r.scheduler.events ∧
    (r.start o).scheduler.clock = r.scheduler.clock ∧ (r.start o).scheduler.nextEventId =
      r.scheduler.nextEventId := by
  rcases o with _ | ⟨i, t, c, v⟩ | ⟨i, t, id⟩
  · exact ⟨rfl, rfl, rfl⟩
  · exact ⟨rfl, rfl, rfl⟩
  · simp only [Session.start]
    rcases beginTask_cases r.scheduler id with ⟨task, -, -, e⟩ | e <;> rw [e] <;> exact ⟨rfl, rfl, rfl⟩

/-- Every operation. -/
theorem effect [EventFrontierPolicy φ] {r r' : Session ε τ ρ} {op : Op ε τ ρ φ} {o : Answer ε}
    (h : r.step op = some (r', o)) : Effect r r' op o := by
  cases op with
  | schedule delay component event =>
    simp only [Session.step] at h
    split at h <;> cases h
    refine effect_scheduled _ rfl rfl rfl rfl (SimTime.le_add ..) fun self v hv => ?_
    simp only [scheduledEvent, EventEntry.eventFor, Option.ite_none_right_eq_some, Option.some.injEq] at hv
    exact ⟨delay, by rw [hv.1, hv.2]⟩
  | scheduleTask delay task =>
    simp only [Session.step] at h
    split at h <;> cases h
    exact effect_scheduled _ rfl rfl rfl rfl (SimTime.le_add ..) (by simp [EventEntry.eventFor])
  | cancelTask id =>
    cases h
    exact effect_same _ rfl rfl (events_cancelTask ..) (clock_cancelTask ..) (nextEventId_cancelTask ..)
  | pop =>
    cases h
    exact effect_popped _ (pop_poppedBy r.scheduler) rfl rfl rfl
  | popWithPolicy policy =>
    cases h
    exact effect_popped _ (popWithPolicy_poppedBy r.scheduler policy) rfl rfl rfl
  | execute policy =>
    cases h
    obtain ⟨h₁, h₂, h₃⟩ := start_keep { r with scheduler := (r.scheduler.popWithPolicy policy).2.1 }
      (r.scheduler.popWithPolicy policy).1
    exact effect_popped _ (popWithPolicy_poppedBy r.scheduler policy) h₁ h₂ h₃
  | finish again result =>
    simp only [Session.step] at h
    split at h
    · cases h
    rename_i id previous fs hf
    cases again with
    | none =>
      cases h
      rw [endTask_eq]
      exact effect_same _ rfl rfl rfl rfl rfl
    | some again =>
      obtain ⟨delay, task⟩ := again
      simp only [Option.map_eq_some_iff, Prod.mk.injEq] at h
      obtain ⟨q, hq, rfl, rfl⟩ := h
      unfold reschedule at hq
      split at hq
      · cases hq
      · split at hq <;> cases hq
        rw [endTask_eq]
        exact effect_scheduled _ rfl rfl rfl rfl (SimTime.le_add ..) (by simp [EventEntry.eventFor])

/-! ## The events for a component -/

/-- The events for the component with the key that have not been popped, with their times. -/
def mail (r : Session ε τ ρ) (self : Uuid) : List (SimTime × ε) := r.heap.filterMap (EventEntry.mailFor self)

/-- The events for the component with the key that have not been popped. -/
def inbox (r : Session ε τ ρ) (self : Uuid) : List ε := r.heap.filterMap (EventEntry.eventFor self)

theorem map_snd_mail (r : Session ε τ ρ) (self : Uuid) : (r.mail self).map Prod.snd = r.inbox self := by
  rw [mail, inbox, List.map_filterMap]
  refine List.filterMap_congr fun e _ => ?_
  cases he : e.eventFor self <;> simp [EventEntry.mailFor, he]

theorem mailFor_of_task {self : Uuid} {e : EventEntry ε} (h : e.taskId ≠ none) : e.mailFor self = none := by
  cases e with
  | component i t c v => exact absurd rfl h
  | task i t id => rfl

/-- What an operation does to the mail. -/
theorem Effect.mail {r r' : Session ε τ ρ} {op : Op ε τ ρ φ} {o : Answer ε} (h : Effect r r' op o)
    (self : Uuid) :
    ((o.scheduled?.bind (EventEntry.mailFor self)).toList ++ r.mail self).Perm
      ((o.popped?.bind (EventEntry.mailFor self)).toList ++ r'.mail self) := by
  obtain ⟨d, hd, hperm⟩ := h.perm
  have hnone : d.filterMap (EventEntry.mailFor self) = [] :=
    List.filterMap_eq_nil_iff.mpr fun e he => mailFor_of_task (hd e he)
  have hopt : ∀ x : Option (EventEntry ε),
      x.toList.filterMap (EventEntry.mailFor self) = (x.bind (EventEntry.mailFor self)).toList := by
    rintro (_ | e)
    · rfl
    · cases he : e.mailFor self <;> simp [he]
  have := hperm.filterMap (EventEntry.mailFor self)
  rw [List.filterMap_append, List.filterMap_append, List.filterMap_append, hnone, hopt, hopt] at this
  exact this

/-- What an operation does to the inbox. -/
theorem Effect.inbox {r r' : Session ε τ ρ} {op : Op ε τ ρ φ} {o : Answer ε} (h : Effect r r' op o)
    (self : Uuid) :
    ((o.scheduled?.bind (EventEntry.eventFor self)).toList ++ r.inbox self).Perm
      ((o.popped?.bind (EventEntry.eventFor self)).toList ++ r'.inbox self) := by
  have hsnd : ∀ x : Option (EventEntry ε),
      (x.bind (EventEntry.mailFor self)).toList.map Prod.snd =
        (x.bind (EventEntry.eventFor self)).toList := by
    rintro (_ | e)
    · rfl
    · cases he : e.eventFor self <;> simp [EventEntry.mailFor, he]
  have := (h.mail self).map Prod.snd
  rwa [List.map_append, List.map_append, hsnd, hsnd, map_snd_mail, map_snd_mail] at this

end Session

/-- The event of a call of `schedule` that is for the component with the key. -/
def Send.eventFor (self : Uuid) (send : Send ε) : Option ε := if send.target = self then some send.event else none

/-- The event of a call of `schedule` that is for the component with the key, with its time. -/
def Send.mailFor (self : Uuid) (now : SimTime) (send : Send ε) : Option (SimTime × ε) :=
  (send.eventFor self).map (now + send.delay, ·)

theorem Send.map_snd_mailFor (self : Uuid) (now : SimTime) (sends : List (Send ε)) :
    (sends.filterMap (Send.mailFor self now)).map Prod.snd = sends.filterMap (Send.eventFor self) := by
  rw [List.map_filterMap]
  refine List.filterMap_congr fun send _ => ?_
  cases he : send.eventFor self <;> simp [Send.mailFor, he]

namespace Session

/-- The calls of `schedule` are made one after the other. -/
theorem sendAll_eq {r r' : Session ε τ ρ} {sends : List (Send ε)} (h : r.sendAll sends = some r') :
    r' = { r with scheduler := sends.foldl (fun s send => s.schedule send.delay send.target send.event) r.scheduler } := by
  induction sends generalizing r with
  | nil => exact (Option.some.inj h).symm
  | cons send sends ih =>
    simp only [sendAll] at h
    split at h
    · exact ih h
    · cases h

theorem clock_sendAll {r r' : Session ε τ ρ} {sends : List (Send ε)} (h : r.sendAll sends = some r') :
    r'.scheduler.clock = r.scheduler.clock := by
  rw [sendAll_eq h]
  exact List.foldlRecOn (motive := fun s : Scheduler ε τ ρ =>
    s.clock = r.scheduler.clock) sends _ rfl fun _ h _ _ => h

theorem Wf.sendAll {r r' : Session ε τ ρ} (hr : r.Wf) {sends : List (Send ε)}
    (h : r.sendAll sends = some r') : r'.Wf := by
  induction sends generalizing r with
  | nil => exact Option.some.inj h ▸ hr
  | cons send sends ih =>
    simp only [Session.sendAll] at h
    split at h
    · exact ih (hr.schedule ..) h
    · cases h

theorem mail_sendAll {r r' : Session ε τ ρ} {sends : List (Send ε)} (h : r.sendAll sends = some r')
    (self : Uuid) :
    (r'.mail self).Perm (sends.filterMap (Send.mailFor self r.scheduler.clock) ++ r.mail self) := by
  induction sends generalizing r with
  | nil =>
    rw [← Option.some.inj h]
    exact .refl _
  | cons send sends ih =>
    simp only [sendAll] at h
    split at h
    · refine (ih h).trans ?_
      have hpush := (BinaryHeap.push_perm r.scheduler.events
        (r.scheduler.scheduledEvent send.delay send.target send.event)).filterMap (EventEntry.mailFor self)
      refine (hpush.append_left _).trans ?_
      have hsame : EventEntry.mailFor self (r.scheduler.scheduledEvent send.delay send.target send.event) =
          send.mailFor self r.scheduler.clock := rfl
      rw [List.filterMap_cons, List.filterMap_cons, hsame]
      cases send.mailFor self r.scheduler.clock with
      | none => exact .refl _
      | some x => exact List.perm_middle
    · cases h

theorem inbox_sendAll {r r' : Session ε τ ρ} {sends : List (Send ε)} (h : r.sendAll sends = some r')
    (self : Uuid) :
    (r'.inbox self).Perm (sends.filterMap (Send.eventFor self) ++ r.inbox self) := by
  have := (mail_sendAll h self).map Prod.snd
  rwa [map_snd_mail, List.map_append, map_snd_mail, Send.map_snd_mailFor] at this

end Session

/-! ## Runs -/

namespace Hosted

variable {code : ComponentCode κ ε μ} {self : Uuid}

/-- What the component has done. -/
def history (answers : List (Answer κ ε μ)) : List (Handled κ ε μ) := answers.filterMap (·.own)

theorem mailFor_eq_none {o : DesCartes.Answer ε} :
    o.popped?.bind (EventEntry.mailFor self) = none ↔ delivered self o = none := by
  rw [delivered]
  cases o.popped? with
  | none => exact iff_of_true rfl rfl
  | some e => exact Option.map_eq_none_iff

theorem returned_eq_some {before : κ} {session : Session ε τ ρ} {input : ε ⊕ μ}
    {o : Option (κ × List (Send ε))} {h : Hosted κ ε τ ρ} {handled : Handled κ ε μ}
    (hr : returned before session input o = some (h, handled)) :
    ∃ component sends, o = some (component, sends) ∧
      handled = ⟨before, input, session.scheduler.clock, component, sends⟩ ∧
      h.component = component ∧ session.sendAll sends = some h.session := by
  rcases o with _ | ⟨component, sends⟩
  · cases hr
  · simp only [returned, Option.map_eq_some_iff, Prod.mk.injEq] at hr
    obtain ⟨session', hsend, rfl, rfl⟩ := hr
    exact ⟨component, sends, rfl, rfl, rfl, hsend⟩

variable [EventFrontierPolicy φ]

/-- What an operation can do: other code does something that leads to no event for the component,
the component processes an event that is popped, or its owner calls a method. -/
theorem step_cases {h h' : Hosted κ ε τ ρ} {op : Op ε τ ρ φ μ} {answer : Answer κ ε μ}
    (hs : h.step code self op = some (h', answer)) :
    (∃ op' o, op = .other op' ∧ answer = ⟨some o, none⟩ ∧ h.session.step op' = some (h'.session, o) ∧
      delivered self o = none ∧ h'.component = h.component) ∨
    (∃ op' o session event component sends, op = .other op' ∧ h.session.step op' = some (session, o) ∧
      delivered self o = some event ∧ code.processEvent h.component self event session.scheduler.clock =
        some (component, sends) ∧
      answer = ⟨some o, some ⟨h.component, .inl event, session.scheduler.clock, component, sends⟩⟩ ∧
      h'.component = component ∧
      session.sendAll sends = some h'.session) ∨
    (∃ method component sends, op = .call method ∧
      code.call h.component self method h.session.scheduler.clock = some (component, sends) ∧
      answer = ⟨none, some ⟨h.component, .inr method, h.session.scheduler.clock, component, sends⟩⟩ ∧
      h'.component = component ∧
      h.session.sendAll sends = some h'.session) := by
  cases op with
  | other op =>
    simp only [step] at hs
    cases hstep : h.session.step op with
    | none => simp [hstep] at hs
    | some r =>
      obtain ⟨session, o⟩ := r
      simp only [hstep] at hs
      cases hd : delivered self o with
      | none =>
        simp only [hd, Option.some.injEq, Prod.mk.injEq] at hs
        obtain ⟨rfl, rfl⟩ := hs
        exact .inl ⟨op, o, rfl, rfl, hstep, hd, rfl⟩
      | some event =>
        simp only [hd, Option.map_eq_some_iff, Prod.mk.injEq, Prod.exists] at hs
        obtain ⟨h₁, handled, hr, rfl, rfl⟩ := hs
        obtain ⟨component, sends, ho, rfl, hc, hsend⟩ := returned_eq_some hr
        exact .inr (.inl ⟨op, o, session, event, component, sends, rfl, hstep, hd, ho, rfl, hc, hsend⟩)
  | call method =>
    simp only [step, Option.map_eq_some_iff, Prod.mk.injEq, Prod.exists] at hs
    obtain ⟨h₁, handled, hr, rfl, rfl⟩ := hs
    obtain ⟨component, sends, ho, rfl, hc, hsend⟩ := returned_eq_some hr
    exact .inr (.inr ⟨method, component, sends, rfl, ho, rfl, hc, hsend⟩)

/-- What a rule keeps: a property of the component, its mail and its history, and that nothing was
handled in the future. -/
structure Ruled (P : κ → List (SimTime × ε) → List (Handled κ ε μ) → Prop) (key : Uuid) (h : Hosted κ ε τ ρ)
    (hs : List (Handled κ ε μ)) : Prop where
  wf : h.session.Wf
  now : ∀ x ∈ hs, x.now ≤ h.session.scheduler.clock
  holds : P h.component (h.session.mail key) hs

section
variable {P : κ → List (SimTime × ε) → List (Handled κ ε μ) → Prop} {h h' : Hosted κ ε τ ρ} {hs : List (Handled κ ε μ)}

omit [EventFrontierPolicy φ] in
/-- The component has handled an event or a call, and what it sends is scheduled. -/
theorem Ruled.handled (h₀ : Ruled P self h hs)
    (hperm : ∀ k l l' hs, l.Perm l' → P k l hs → P k l' hs) {session : Session ε τ ρ}
    {input : ε ⊕ μ} {sends : List (Send ε)} (hwf : session.Wf)
    (hle : h.session.scheduler.clock ≤ session.scheduler.clock)
    (hsend : session.sendAll sends = some h'.session)
    (hP : P h'.component (sends.filterMap (Send.mailFor self session.scheduler.clock) ++
      session.mail self) (hs ++ [⟨h.component, input, session.scheduler.clock, h'.component, sends⟩])) :
    Ruled P self h' (hs ++ [⟨h.component, input, session.scheduler.clock, h'.component, sends⟩]) := by
  refine ⟨hwf.sendAll hsend, ?_, hperm _ _ _ _ (Session.mail_sendAll hsend self).symm hP⟩
  rw [Session.clock_sendAll hsend]
  intro x hx
  rcases List.mem_append.mp hx with hx | hx
  · exact (h₀.now x hx).trans hle
  · rw [List.mem_singleton.mp hx]

/-- Other code has done something that leads to no event for the component; it may have scheduled one. -/
theorem Ruled.other (h₀ : Ruled P self h hs) (hperm : ∀ k l l' hs, l.Perm l' → P k l hs → P k l' hs)
    {op : DesCartes.Op ε τ ρ φ} {o : DesCartes.Answer ε} (hstep : h.session.step op = some (h'.session, o))
    (hd : delivered self o = none) (hc : h'.component = h.component)
    (harrive : ∀ delay e t, op = .schedule delay self e → P h.component (h.session.mail self) hs →
      P h.component ((t, e) :: h.session.mail self) hs) : Ruled P self h' hs := by
  have heffect := Session.effect hstep
  have hstepped := h₀.wf.stepped hstep
  have hmail := heffect.mail self
  refine ⟨hstepped.wf, fun x hx => (h₀.now x hx).trans hstepped.le, ?_⟩
  rw [show o.popped?.bind (EventEntry.mailFor self) = none from mailFor_eq_none.mpr hd] at hmail
  rw [hc]
  cases hsched : o.scheduled?.bind (EventEntry.mailFor self) with
  | none =>
    rw [hsched] at hmail
    exact hperm _ _ _ _ hmail h₀.holds
  | some m =>
    rw [hsched] at hmail
    obtain ⟨entry, hentry, hfor⟩ := Option.bind_eq_some_iff.mp hsched
    obtain ⟨e, hevent, rfl⟩ := Option.map_eq_some_iff.mp hfor
    obtain ⟨delay, rfl⟩ := heffect.sender entry hentry self e hevent
    exact hperm _ _ _ _ hmail (harrive delay e _ rfl h₀.holds)

/-- An event for the component is popped: it was in its mail, and its time is that of the clock. -/
theorem mail_of_delivered {op : DesCartes.Op ε τ ρ φ} {o : DesCartes.Answer ε}
    {session session' : Session ε τ ρ} {event : ε} (hstep : session.step op = some (session', o))
    (hd : delivered self o = some event) :
    (session.mail self).Perm ((session'.scheduler.clock, event) :: session'.mail self) := by
  have heffect := Session.effect hstep
  have hmail := heffect.mail self
  -- nothing is scheduled by an operation that pops
  have hsched : o.scheduled? = none := by
    cases o with
    | popped e => rfl
    | _ => cases hd
  obtain ⟨entry, hentry, hevent⟩ := Option.bind_eq_some_iff.mp hd
  have hclock : session'.scheduler.clock = entry.time := by
    rw [heffect.clock, hentry]
    rfl
  rw [hsched, hentry, Option.bind_some, EventEntry.mailFor, hevent, Option.map_some, ← hclock] at hmail
  exact hmail

end

/-- What the events that arrive keep, the events that are processed and the calls of the owner, in
whatever order, holds of the component, its mail and its history in every run. An event is processed
at its time. -/
theorem run_rule_mail {P : κ → List (SimTime × ε) → List (Handled κ ε μ) → Prop} {I : ε → Prop}
    {A : μ → Prop} (hperm : ∀ k l l' hs, l.Perm l' → P k l hs → P k l' hs)
    (harrive : ∀ k l hs t e, I e → P k l hs → P k ((t, e) :: l) hs)
    (hprocess : ∀ k l hs e now k' sends, code.processEvent k self e now = some (k', sends) →
      (∀ x ∈ hs, x.now ≤ now) → P k ((now, e) :: l) hs → P k'
      (sends.filterMap (Send.mailFor self now) ++ l) (hs ++ [⟨k, .inl e, now, k', sends⟩]))
    (hcall : ∀ k l hs m now k' sends, A m → code.call k self m now = some (k', sends) →
      (∀ x ∈ hs, x.now ≤ now) → P k l hs → P k' (sends.filterMap (Send.mailFor self now) ++ l)
      (hs ++ [⟨k, .inr m, now, k', sends⟩]))
    {h h' : Hosted κ ε τ ρ} {ops : List (Op ε τ ρ φ μ)} {answers : List (Answer κ ε μ)}
    (hops : ∀ delay e, .other (.schedule delay self e) ∈ ops → I e)
    (hcalls : ∀ m, .call m ∈ ops → A m) (hwf : h.session.Wf)
    (hinit : P h.component (h.session.mail self) [])
    (hrun : Machine.run (step code self) h ops = some (h', answers)) :
    P h'.component (h'.session.mail self) (history answers) := by
  have hC :
      Machine.Along (fun _ (op : Op ε τ ρ φ μ) => (∀ delay e, op = .other (.schedule delay self e) → I e) ∧
      ∀ m, op = .call m → A m) (step code self) h ops :=
    Machine.along_of_forall (C := fun op : Op ε τ ρ φ μ =>
      (∀ delay e, op = .other (.schedule delay self e) → I e) ∧
      ∀ m, op = .call m → A m)
      fun op hop => ⟨fun delay e he => hops delay e (he ▸ hop), fun m he => hcalls m (he ▸ hop)⟩
  have hstart : Ruled P self h (history []) := ⟨hwf, nofun, hinit⟩
  refine (hC.history (P := fun h os => Ruled P self h (history os)) ?_ hstart hrun).holds
  intro h op h' answer os h₀ ⟨hinput, hallowed⟩ hs
  have hlast : ∀ (o : Option (DesCartes.Answer ε)) (handled : Handled κ ε μ),
      history (os ++ [⟨o, some handled⟩]) = history os ++ [handled] := fun o handled => by simp [history]
  rcases step_cases hs with ⟨op', o, rfl, rfl, hstep, hd, hc⟩ |
    ⟨op', o, session, event, component, sends, rfl, hstep, hd, hproc, rfl, rfl, hsend⟩ |
    ⟨method, component, sends, rfl, hproc, rfl, rfl, hsend⟩
  · have hhist : history (os ++ [(⟨some o, none⟩ : Answer κ ε μ)]) = history os := by simp [history]
    rw [hhist]
    exact h₀.other hperm hstep hd hc fun delay e t he => harrive _ _ _ t e (hinput delay e (congrArg _ he))
  · have hstepped := h₀.wf.stepped hstep
    rw [hlast]
    refine h₀.handled hperm hstepped.wf hstepped.le hsend (hprocess _ _ _ _ _ _ _ hproc ?_ ?_)
    · exact fun x hx => (h₀.now x hx).trans hstepped.le
    · exact hperm _ _ _ _ (mail_of_delivered hstep hd) h₀.holds
  · rw [hlast]
    exact h₀.handled hperm h₀.wf le_rfl hsend
      (hcall _ _ _ _ _ _ _ (hallowed method rfl) hproc h₀.now h₀.holds)

/-- `run_rule_mail`, for what does not depend on the times of the events. -/
theorem run_rule {P : κ → List ε → List (Handled κ ε μ) → Prop} {I : ε → Prop} {A : μ → Prop}
    (hperm : ∀ k l l' hs, l.Perm l' → P k l hs → P k l' hs)
    (harrive : ∀ k l hs e, I e → P k l hs → P k (e :: l) hs)
    (hprocess : ∀ k l hs e now k' sends, code.processEvent k self e now = some (k', sends) →
      (∀ x ∈ hs, x.now ≤ now) → P k (e :: l) hs → P k' (sends.filterMap (Send.eventFor self) ++ l)
      (hs ++ [⟨k, .inl e, now, k', sends⟩]))
    (hcall : ∀ k l hs m now k' sends, A m → code.call k self m now = some (k', sends) →
      (∀ x ∈ hs, x.now ≤ now) → P k l hs → P k' (sends.filterMap (Send.eventFor self) ++ l)
      (hs ++ [⟨k, .inr m, now, k', sends⟩]))
    {h h' : Hosted κ ε τ ρ} {ops : List (Op ε τ ρ φ μ)} {answers : List (Answer κ ε μ)}
    (hops : ∀ delay e, .other (.schedule delay self e) ∈ ops → I e)
    (hcalls : ∀ m, .call m ∈ ops → A m) (hwf : h.session.Wf)
    (hinit : P h.component (h.session.inbox self) [])
    (hrun : Machine.run (step code self) h ops = some (h', answers)) :
    P h'.component (h'.session.inbox self) (history answers) := by
  have hsends : ∀ (now : SimTime) (sends : List (Send ε)) (l : List (SimTime × ε)),
      (sends.filterMap (Send.mailFor self now) ++ l).map Prod.snd = sends.filterMap
      (Send.eventFor self) ++ l.map Prod.snd := by
    intro now sends l
    rw [List.map_append, Send.map_snd_mailFor]
  rw [← Session.map_snd_mail]
  refine run_rule_mail (P := fun k l hs => P k (l.map Prod.snd) hs)
    (fun k l l' hs hl => hperm _ _ _ _ (hl.map _))
    (fun k l hs t e he hP => harrive _ _ _ _ he hP) (fun k l hs e now k' sends hp hnow hP => ?_)
    (fun k l hs m now k' sends hm hp hnow hP => ?_) hops hcalls hwf (by rwa [Session.map_snd_mail]) hrun
  · rw [hsends]
    exact hprocess _ _ _ _ _ _ _ hp hnow hP
  · rw [hsends]
    exact hcall _ _ _ _ _ _ _ hm hp hnow hP

/-- The history of a run is one of calls of the component's code. -/
theorem run_performed {h h' : Hosted κ ε τ ρ} {ops : List (Op ε τ ρ φ μ)}
    {answers : List (Answer κ ε μ)} (hwf : h.session.Wf)
    (hrun : Machine.run (step code self) h ops = some (h', answers)) :
    ∀ x ∈ history answers, code.perform x.before self x.input x.now = some (x.after, x.sends) := by
  refine run_rule (P := fun _ _ hs => ∀ x ∈ hs, code.perform x.before self x.input x.now = some
    (x.after, x.sends))
    (I := fun _ => True) (A := fun _ => True) (fun _ _ _ _ _ h => h) (fun _ _ _ _ _ h => h)
    (fun k l hs e now k' sends hp _ h => ?_)
    (fun k l hs m now k' sends _ hp _ h => ?_) (fun _ _ _ => trivial) (fun _ _ => trivial) hwf nofun hrun
  · exact List.forall_mem_append.mpr ⟨h, List.forall_mem_singleton.mpr hp⟩
  · exact List.forall_mem_append.mpr ⟨h, List.forall_mem_singleton.mpr hp⟩

end Hosted

end DesCartes
