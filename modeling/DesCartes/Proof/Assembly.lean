import DesCartes.Impl.Assembly
import DesCartes.Proof.Hosted
import Mathlib.Algebra.Order.Group.Multiset

/-!
# What holds of each component of a simulation

* `run_local`: what a component keeps when an event is sent to it and when it processes one, holds
  of it in every run of all of them, if what each sends to the others is what these expect;
* `run_post`: the events for a component that other code or the components have scheduled are those
  in its inbox and those that it has processed, each once.
-/

namespace DesCartes

variable {κ ε τ ρ φ μ : Type}

theorem EventEntry.eventFor_eq (self : Uuid) (e : EventEntry ε) :
    e.eventFor self = e.posted.bind fun x => if x.1 = self then some x.2 else none := by
  cases e <;> rfl

/-- The event for a component that an operation schedules, and the key of that. -/
def Op.posted : Op ε τ ρ φ → Option (Uuid × ε)
  | .schedule _ key event => some (key, event)
  | _ => none

/-- The event for the component with the key that an operation schedules. -/
def Op.eventFor (self : Uuid) (op : Op ε τ ρ φ) : Option ε :=
  op.posted.bind fun x => if x.1 = self then some x.2 else none

theorem Op.eventFor_eq_some {self : Uuid} {op : Op ε τ ρ φ} {event : ε} :
    op.eventFor self = some event ↔ ∃ delay, op = .schedule delay self event := by
  cases op with
  | schedule delay key e => simp [eventFor, posted]
  | _ => simp [eventFor, posted]

theorem Op.mem_filterMap_eventFor {self : Uuid} {ops : List (Op ε τ ρ φ)} {event : ε} :
    event ∈ ops.filterMap (Op.eventFor self) ↔ ∃ delay, .schedule delay self event ∈ ops := by
  simp only [List.mem_filterMap, eventFor_eq_some]
  constructor
  · rintro ⟨_, hop, delay, rfl⟩
    exact ⟨delay, hop⟩
  · exact fun ⟨delay, hop⟩ => ⟨_, hop, delay, rfl⟩

/-- An event that an operation schedules for a component is one that `schedule` was called with. -/
theorem Session.posted_scheduled [EventFrontierPolicy φ] {r r' : Session ε τ ρ} {op : Op ε τ ρ φ}
    {o : DesCartes.Answer ε} (h : r.step op = some (r', o)) :
    o.scheduled?.bind EventEntry.posted = op.posted := by
  have hnone : (∀ delay key event, op ≠ .schedule delay key event) →
      o.scheduled?.bind EventEntry.posted = none := by
    intro hop
    refine Option.bind_eq_none_iff.mpr fun e hs => ?_
    cases e with
    | component i t key event =>
      obtain ⟨delay, he⟩ := (effect h).sender _ hs key event (if_pos rfl)
      exact absurd he (hop delay key event)
    | task i t id => rfl
  cases op with
  | schedule delay key event =>
    simp only [Session.step] at h
    split at h <;> cases h
    rfl
  | _ => exact hnone fun _ _ _ => by simp

namespace Assembly

/-- What the component with the key has done. -/
def historyOf (key : Uuid) (answers : List (Answer κ ε μ)) : List (Handled κ ε μ) :=
  answers.filterMap fun answer => answer.own.bind fun x => if x.1 = key then some x.2 else none

/-- The events that a component has processed. -/
def taken (hs : List (Handled κ ε μ)) : List ε := hs.filterMap (·.input.getLeft?)

/-- The calls of `schedule` that the components have made. -/
def sent (answers : List (Answer κ ε μ)) : List (Send ε) :=
  answers.flatMap fun answer => answer.own.elim [] (·.2.sends)

variable {code : ComponentCode κ ε μ} [EventFrontierPolicy φ] {a a' : Assembly κ ε τ ρ}
  {op : Op ε τ ρ φ} {ops : List (Op ε τ ρ φ)} {answer : Answer κ ε μ} {answers : List (Answer κ ε μ)}

/-- What an operation can do: no component gets an event, or one does and processes it. -/
theorem step_cases (hs : step code a op = some (a', answer)) :
    (∃ o, answer = ⟨o, none⟩ ∧ a.session.step op = some (a'.session, o) ∧ a'.components = a.components ∧
      ∀ key, a.components key ≠ none → Hosted.delivered key o = none) ∨
    ∃ o session key event k k' sends, a.session.step op = some (session, o) ∧
      Hosted.delivered key o = some event ∧ (∀ key', key' ≠ key → Hosted.delivered key' o = none) ∧
      a.components key = some k ∧
      code.processEvent k key event session.scheduler.clock = some (k', sends) ∧
      answer = ⟨o, some (key, ⟨k, .inl event, session.scheduler.clock, k', sends⟩)⟩ ∧
      a'.components = Function.update a.components key (some k') ∧
      session.sendAll sends = some a'.session := by
  simp only [step] at hs
  cases hstep : a.session.step op with
  | none => simp [hstep] at hs
  | some r =>
    obtain ⟨session, o⟩ := r
    simp only [hstep] at hs
    have hdelivered : ∀ key, Hosted.delivered key o = (o.popped?.bind EventEntry.posted).bind
        fun x => if x.1 = key then some x.2 else none := by
      intro key
      rw [Hosted.delivered, Option.bind_assoc]
      exact Option.bind_congr fun e _ => e.eventFor_eq key
    cases hp : o.popped?.bind EventEntry.posted with
    | none =>
      simp only [hp, Option.some.injEq, Prod.mk.injEq] at hs
      obtain ⟨rfl, rfl⟩ := hs
      exact .inl ⟨o, rfl, rfl, rfl, fun key _ => by rw [hdelivered, hp]; rfl⟩
    | some x =>
      obtain ⟨key, event⟩ := x
      simp only [hp, Option.map_eq_some_iff, Prod.mk.injEq, Prod.exists] at hs
      obtain ⟨a₁, own, hproc, rfl, rfl⟩ := hs
      have hothers : ∀ key', key' ≠ key → Hosted.delivered key' o = none := by
        intro key' hne
        rw [hdelivered, hp, Option.bind_some, if_neg (Ne.symm hne)]
      simp only [processEvent] at hproc
      cases hk : a.components key with
      | none =>
        simp only [hk, Option.some.injEq, Prod.mk.injEq] at hproc
        obtain ⟨rfl, rfl⟩ := hproc
        refine .inl ⟨o, rfl, rfl, rfl, fun key' hkey => hothers key' ?_⟩
        rintro rfl
        exact hkey hk
      | some k =>
        simp only [hk, Option.map_eq_some_iff, Prod.mk.injEq, Prod.exists] at hproc
        obtain ⟨h₁, handled, hr, rfl, rfl⟩ := hproc
        obtain ⟨k', sends, hcode, rfl, rfl, hsend⟩ := Hosted.returned_eq_some hr
        refine .inr ⟨o, session, key, event, k, h₁.component, sends, rfl, ?_, hothers, hk, hcode, rfl,
          rfl, hsend⟩
        rw [hdelivered, hp, Option.bind_some, if_pos rfl]

/-! ## One component -/

theorem historyOf_none (key : Uuid) (answers : List (Answer κ ε μ)) (o : DesCartes.Answer ε) :
    historyOf key (answers ++ [⟨o, none⟩]) = historyOf key answers := by
  simp [historyOf]

theorem historyOf_self (key : Uuid) (answers : List (Answer κ ε μ)) (o : DesCartes.Answer ε)
    (x : Handled κ ε μ) :
    historyOf key (answers ++ [⟨o, some (key, x)⟩]) = historyOf key answers ++ [x] := by
  simp [historyOf]

theorem historyOf_of_ne {key key' : Uuid} (hne : key' ≠ key) (answers : List (Answer κ ε μ))
    (o : DesCartes.Answer ε) (x : Handled κ ε μ) :
    historyOf key (answers ++ [⟨o, some (key', x)⟩]) = historyOf key answers := by
  simp [historyOf, hne]

/-- The inbox of a component after an operation by which it gets no event. -/
theorem inbox_other {r r' : Session ε τ ρ} {o : DesCartes.Answer ε} {key : Uuid}
    (hstep : r.step op = some (r', o)) (hd : Hosted.delivered key o = none) :
    (r'.inbox key).Perm ((op.eventFor key).toList ++ r.inbox key) := by
  have hinbox := (Session.effect hstep).inbox key
  have hscheduled : o.scheduled?.bind (EventEntry.eventFor key) = op.eventFor key := by
    rw [Op.eventFor, ← Session.posted_scheduled hstep, Option.bind_assoc]
    exact Option.bind_congr fun e _ => e.eventFor_eq key
  rw [show o.popped?.bind (EventEntry.eventFor key) = none from hd, hscheduled] at hinbox
  exact hinbox.symm

/-- The inbox of a component that gets an event. -/
theorem inbox_delivered {r r' : Session ε τ ρ} {o : DesCartes.Answer ε} {key : Uuid} {event : ε}
    (hstep : r.step op = some (r', o)) (hd : Hosted.delivered key o = some event) :
    (r.inbox key).Perm (event :: r'.inbox key) := by
  have hmail := (Hosted.mail_of_delivered hstep hd).map Prod.snd
  rwa [List.map_cons, Session.map_snd_mail, Session.map_snd_mail] at hmail

/-- An operation that pops schedules nothing. -/
theorem eventFor_of_delivered {r r' : Session ε τ ρ} {o : DesCartes.Answer ε} {key : Uuid} {event : ε}
    (hstep : r.step op = some (r', o)) (hd : Hosted.delivered key o = some event) (key' : Uuid) :
    op.eventFor key' = none := by
  refine Option.eq_none_iff_forall_not_mem.mpr fun event' hop => ?_
  obtain ⟨delay, rfl⟩ := Op.eventFor_eq_some.mp hop
  simp only [Session.step] at hstep
  split at hstep <;> cases hstep
  cases hd

theorem inbox_popped {r r' : Session ε τ ρ} {o : DesCartes.Answer ε} {key key' : Uuid} {event : ε}
    (hstep : r.step op = some (r', o)) (hd : Hosted.delivered key o = some event)
    (hd' : Hosted.delivered key' o = none) : (r'.inbox key').Perm (r.inbox key') := by
  have hinbox := inbox_other hstep hd'
  rwa [eventFor_of_delivered hstep hd key'] at hinbox

/-- What holds when one event has arrived holds when several have, one after the other. -/
theorem arrive_all {Q : List ε → Prop} {I : ε → Prop} (harrive : ∀ l e, I e → Q l → Q (e :: l))
    {es l : List ε} (hes : ∀ e ∈ es, I e) (hl : Q l) : Q (es ++ l) := by
  induction es with
  | nil => exact hl
  | cons e es ih =>
    exact harrive _ e (hes e List.mem_cons_self) (ih fun e' h => hes e' (List.mem_cons_of_mem _ h))

/-- What was in an inbox when a component was given an event is there, or has been processed. -/
theorem inbox_taken {r r' : Session ε τ ρ} {o : DesCartes.Answer ε} {key' : Uuid} {event : ε}
    {x : Handled κ ε μ} (hstep : r.step op = some (r', o)) (hd : Hosted.delivered key' o = some event)
    (hothers : ∀ key, key ≠ key' → Hosted.delivered key o = none) (hx : x.input = .inl event)
    (key : Uuid) :
    (r'.inbox key ++ taken (historyOf key (answers ++ [(⟨o, some (key', x)⟩ : Answer κ ε μ)]))).Perm
      (r.inbox key ++ taken (historyOf key answers)) := by
  by_cases he : key = key'
  · subst he
    have htaken : taken (historyOf key answers ++ [x]) = taken (historyOf key answers) ++ [event] := by
      simp [taken, hx]
    rw [historyOf_self, htaken, ← List.append_assoc]
    exact (List.perm_append_singleton ..).trans ((inbox_delivered hstep hd).symm.append_right _)
  · rw [historyOf_of_ne (Ne.symm he)]
    exact (inbox_popped hstep hd (hothers key he)).append_right _

/-- What a component keeps when an event arrives and when it processes one holds of it in every run
of all the components, if they send one another only what is expected (`I`), as other code does. -/
theorem run_local {I : Uuid → ε → Prop} {Q : Uuid → κ → List ε → List (Handled κ ε μ) → Prop}
    (hperm : ∀ key k l l' hs, l.Perm l' → Q key k l hs → Q key k l' hs)
    (harrive : ∀ key k l hs e, I key e → Q key k l hs → Q key k (e :: l) hs)
    (hsends : ∀ key k e now k' sends, code.processEvent k key e now = some (k', sends) →
      ∀ send ∈ sends, send.target ≠ key → I send.target send.event)
    (hprocess : ∀ key k l hs e now k' sends, code.processEvent k key e now = some (k', sends) →
      Q key k (e :: l) hs →
      Q key k' (sends.filterMap (Send.eventFor key) ++ l) (hs ++ [⟨k, .inl e, now, k', sends⟩]))
    (hops : ∀ delay key e, .schedule delay key e ∈ ops → a.components key ≠ none → I key e)
    (hinit : ∀ key k, a.components key = some k → Q key k (a.session.inbox key) [])
    (hrun : Machine.run (step code) a ops = some (a', answers)) :
    (∀ key, a'.components key = none ↔ a.components key = none) ∧
    ∀ key k, a'.components key = some k → Q key k (a'.session.inbox key) (historyOf key answers) := by
  obtain ⟨start, hstart⟩ : ∃ start, start = a.components := ⟨_, rfl⟩
  have hC : Machine.Along (fun _ (op : Op ε τ ρ φ) => ∀ delay key e, op = .schedule delay key e →
      start key ≠ none → I key e) (step code) a ops :=
    Machine.along_of_forall (C := fun op : Op ε τ ρ φ => ∀ delay key e, op = .schedule delay key e →
      start key ≠ none → I key e) fun op hop delay key e he hkey => hops delay key e (he ▸ hop)
        (hstart ▸ hkey)
  have hbase : (∀ key, a.components key = none ↔ start key = none) ∧ ∀ key k,
      a.components key = some k →
        Q key k (a.session.inbox key) (historyOf key ([] : List (Answer κ ε μ))) :=
    ⟨fun key => by rw [hstart], hinit⟩
  rw [← hstart]
  refine hC.history (P := fun a os => (∀ key, a.components key = none ↔ start key = none) ∧
    ∀ key k, a.components key = some k → Q key k (a.session.inbox key) (historyOf key os)) ?_
    hbase hrun
  intro a op a' answer os ⟨hdomain, hQ⟩ hinput hs
  rcases step_cases hs with ⟨o, rfl, hstep, hcomponents, hnone⟩ |
    ⟨o, session, key, event, k, k', sends, hstep, hd, hothers, hk, hcode, rfl, hcomponents, hsend⟩
  · rw [hcomponents]
    refine ⟨hdomain, fun key k hk => ?_⟩
    rw [historyOf_none]
    have hsome : a.components key ≠ none := hk ▸ Option.some_ne_none k
    have h := inbox_other hstep (hnone key hsome)
    cases hop : op.eventFor key with
    | none =>
      rw [hop] at h
      exact hperm _ _ _ _ _ h.symm (hQ key k hk)
    | some event =>
      rw [hop] at h
      obtain ⟨delay, rfl⟩ := Op.eventFor_eq_some.mp hop
      refine hperm _ _ _ _ _ h.symm (harrive _ _ _ _ _ (hinput delay key event rfl ?_) (hQ key k hk))
      exact fun hn => hsome ((hdomain key).mpr hn)
  · rw [hcomponents]
    refine ⟨fun key' => ?_, fun key' k'' hk' => ?_⟩
    · by_cases he : key' = key
      · subst he
        simp [← hdomain, hk]
      · rw [Function.update_of_ne he]
        exact hdomain key'
    · refine hperm _ _ _ _ _ (Session.inbox_sendAll hsend key').symm ?_
      by_cases he : key' = key
      · subst he
        rw [Function.update_self, Option.some.injEq] at hk'
        subst hk'
        rw [historyOf_self]
        exact hprocess _ _ _ _ _ _ _ _ hcode (hperm _ _ _ _ _ (inbox_delivered hstep hd) (hQ key' k hk))
      · rw [Function.update_of_ne he] at hk'
        rw [historyOf_of_ne (Ne.symm he)]
        have hkept := hperm _ _ _ _ _ (inbox_popped hstep hd (hothers key' he)).symm (hQ key' k'' hk')
        have hall : ∀ e ∈ sends.filterMap (Send.eventFor key'), I key' e := by
          intro e hmem
          obtain ⟨send, hsend', hfor⟩ := List.mem_filterMap.mp hmem
          simp only [Send.eventFor, Option.ite_none_right_eq_some, Option.some.injEq] at hfor
          obtain ⟨rfl, rfl⟩ := hfor
          exact hsends key k event _ k' sends hcode send hsend' he
        exact arrive_all (fun l e he => harrive key' k'' l _ e he) hall hkept

/-! ## The events for one component -/

/-- The events that other code or the components have scheduled for a component, and those that were in
its inbox, are in its inbox or have been processed. -/
def Posted (key : Uuid) (inbox : List ε) (a : Assembly κ ε τ ρ) (ops : List (Op ε τ ρ φ))
    (answers : List (Answer κ ε μ)) : Prop :=
  (ops.filterMap (Op.eventFor key) ++ (sent answers).filterMap (Send.eventFor key) ++ inbox).Perm
    (a.session.inbox key ++ taken (historyOf key answers))

/-- No event for a component is lost, and none is processed twice. -/
theorem run_post {key : Uuid} (hkey : a.components key ≠ none)
    (hrun : Machine.run (step code) a ops = some (a', answers)) :
    Posted key (a.session.inbox key) a' ops answers := by
  obtain ⟨inbox, hinbox⟩ : ∃ inbox, inbox = a.session.inbox key := ⟨_, rfl⟩
  rw [← hinbox]
  have hC : Machine.Along (fun _ _ => True) (step code) a ops :=
    Machine.along_of_forall (C := fun _ => True) fun _ _ => trivial
  refine (hC.trace (P := fun a ops os => a.components key ≠ none ∧ Posted key inbox a ops os) ?_ [] []
    ⟨hkey, by simp [Posted, hinbox, historyOf, sent, taken]⟩ hrun).2
  intro a op a' answer ops os ⟨hsome, hperm⟩ _ hs
  have hposted : (ops ++ [op]).filterMap (Op.eventFor key) =
      ops.filterMap (Op.eventFor key) ++ (op.eventFor key).toList := by
    rw [List.filterMap_append]
    cases hop : op.eventFor key <;> simp [hop]
  unfold Posted at hperm ⊢
  rw [hposted]
  rcases step_cases hs with ⟨o, rfl, hstep, hcomponents, hnone⟩ |
    ⟨o, session, key', event, k, k', sends, hstep, hd, hothers, hk, hcode, rfl, hcomponents, hsend⟩
  · have hsent : sent (os ++ [(⟨o, none⟩ : Answer κ ε μ)]) = sent os := by simp [sent]
    refine ⟨hcomponents ▸ hsome, ?_⟩
    rw [historyOf_none, hsent]
    have h := inbox_other hstep (hnone key hsome)
    rw [← Multiset.coe_eq_coe] at hperm h ⊢
    simp only [← Multiset.coe_add] at hperm h ⊢
    calc (ops.filterMap (Op.eventFor key) + (op.eventFor key).toList +
        (sent os).filterMap (Send.eventFor key) + inbox : Multiset ε)
        = (op.eventFor key).toList + (ops.filterMap (Op.eventFor key) +
          (sent os).filterMap (Send.eventFor key) + inbox) := by ac_rfl
      _ = _ := by rw [hperm, h, Multiset.add_assoc]
  · rw [eventFor_of_delivered hstep hd key, Option.toList_none, List.append_nil]
    refine ⟨?_, ?_⟩
    · rw [hcomponents]
      by_cases he : key = key'
      · subst he
        rw [Function.update_self]
        exact Option.some_ne_none k'
      · rwa [Function.update_of_ne he]
    · obtain ⟨x, hx⟩ : ∃ x : Handled κ ε μ,
        x = ⟨k, .inl event, session.scheduler.clock, k', sends⟩ := ⟨_, rfl⟩
      have hsent : sent (os ++ [(⟨o, some (key', x)⟩ : Answer κ ε μ)]) = sent os ++ sends := by
        simp [sent, hx]
      have hall := hperm.trans (inbox_taken hstep hd hothers (congrArg Handled.input hx) key).symm
      have hnew := Session.inbox_sendAll hsend key
      rw [← Multiset.coe_eq_coe] at hall hnew ⊢
      rw [← hx, hsent, List.filterMap_append]
      simp only [← Multiset.coe_add] at hall hnew ⊢
      calc (ops.filterMap (Op.eventFor key) + ((sent os).filterMap (Send.eventFor key) +
          sends.filterMap (Send.eventFor key)) + inbox : Multiset ε)
          = sends.filterMap (Send.eventFor key) + (ops.filterMap (Op.eventFor key) +
            (sent os).filterMap (Send.eventFor key) + inbox) := by ac_rfl
        _ = _ := by rw [hall, hnew, Multiset.add_assoc]

/-! ## All components -/

/-- What the components have done is what their code does. -/
theorem run_performed (hrun : Machine.run (step code) a ops = some (a', answers))
    {o : DesCartes.Answer ε} {key : Uuid} {x : Handled κ ε μ} (hx : ⟨o, some (key, x)⟩ ∈ answers) :
    a.components key ≠ none ∧
    ∃ event, x.input = .inl event ∧ code.processEvent x.before key event x.now =
      some (x.after, x.sends) := by
  refine Machine.run_answers (P := fun a' => ∀ key, a'.components key ≠ none → a.components key ≠ none)
    (Q := fun answer : Answer κ ε μ => ∀ key x, answer.own = some (key, x) → a.components key ≠ none ∧
      ∃ event, x.input = .inl event ∧ code.processEvent x.before key event x.now = some
        (x.after, x.sends))
    (fun a₁ op a₂ answer hstart hs => ?_) (fun _ => id) hrun _ hx key x rfl
  rcases step_cases hs with ⟨o, rfl, -, hcomponents, -⟩ |
    ⟨o, session, key, event, k, k', sends, -, -, -, hk, hcode, rfl, hcomponents, -⟩
  · exact ⟨hcomponents ▸ hstart, fun key x hx => by cases hx⟩
  · have hkey : a.components key ≠ none := hstart key (hk ▸ Option.some_ne_none k)
    refine ⟨fun key' hkey' => ?_, ?_⟩
    · by_cases he : key' = key
      · exact he ▸ hkey
      · rw [hcomponents, Function.update_of_ne he] at hkey'
        exact hstart key' hkey'
    · rintro key x ⟨⟩
      exact ⟨hkey, event, rfl, hcode⟩

theorem mem_historyOf {o : DesCartes.Answer ε} {key : Uuid} {x : Handled κ ε μ}
    (hx : ⟨o, some (key, x)⟩ ∈ answers) :
    x ∈ historyOf key answers :=
  List.mem_filterMap.mpr ⟨_, hx, by simp⟩

/-- What only one of the components sends is found in what that has done. -/
theorem filter_sent {β : Type} {f : Send ε → Option β} {p : β → Bool} {key : Uuid}
    (hp : ∀ o key' x, ⟨o, some (key', x)⟩ ∈ answers → key' ≠ key → ∀ b ∈ x.sends.filterMap f, ¬p b) :
    ((sent answers).filterMap f).filter p =
      ((historyOf key answers).flatMap fun x => x.sends.filterMap f).filter p := by
  induction answers with
  | nil => rfl
  | cons answer answers ih =>
    have hrest := ih fun o key' x hx => hp o key' x (List.mem_cons_of_mem _ hx)
    have hsent : sent (answer :: answers) = answer.own.elim [] (·.2.sends) ++ sent answers := by
      simp [sent]
    rw [hsent, List.filterMap_append, List.filter_append, hrest]
    obtain ⟨o, _ | ⟨key', x⟩⟩ := answer
    · rfl
    · by_cases he : key' = key
      · subst he
        simp [historyOf]
      · have hnone := List.filter_eq_nil_iff.mpr (hp o key' x List.mem_cons_self he)
        simp [historyOf, he, hnone]

end Assembly

end DesCartes
