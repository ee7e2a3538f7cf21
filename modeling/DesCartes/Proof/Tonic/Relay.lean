import DesCartes.Impl.Tonic.Relay
import DesCartes.Proof.Sync.MpscAtomic
import DesCartes.Proof.Sync.MpscWaiters
import DesCartes.Proof.Tonic.StreamDelivery

/-!
# What a typed stream delivers

* `Inv`: what was sent, and what is being sent, is what the loop makes of the items that were read,
  as long as there is a receiver;
* `run_relayed`: the second channel in any run, for any loop;
* `received_typed`: the messages of requests, from one side to the other.
-/

namespace DesCartes

/-! ## The two ends of a channel -/

namespace Mpsc

variable {τ ω : Type} [DecidableEq ω] {n : Nat} {c c' : Mpsc τ ω} {a : Answer τ} {answers : List (Answer τ)} {op : Op τ ω}

/-- What the receiver does, and whoever else is not a sender. -/
theorem step_receives (hop : op.fromSender = false) (h : c.step op = some (c', a)) :
    a.accepted = none ∧ c'.senders = c.senders ∧
    (c'.state.receiverAlive = true → c.state.receiverAlive = true) ∧
    ∀ i p, c.sends.get i = some p → ∃ woken, c'.sends.get i = some { p with woken } := by
  have hwake : ∀ wakers i p, c.sends.get i = some p → ∃ woken,
      (c.wake wakers).sends.get i = some { p with woken } := by
    intro wakers i p hp
    have hget : (c.wake wakers).sends.get i = (c.sends.get i).map _ := rfl
    rw [hp, Option.map_some] at hget
    split at hget
    · exact ⟨true, hget⟩
    · exact ⟨p.woken, hget⟩
  have hsame : ∀ i p, c.sends.get i = some p → ∃ woken, c.sends.get i = some { p with woken } :=
    fun i p hp => ⟨p.woken, hp⟩
  cases op with
  | recv waker =>
    simp only [step, ofReceiver] at h
    split at h
    · rename_i halive
      cases h
      exact ⟨rfl, rfl, fun _ => halive, hwake _⟩
    · cases h
      exact ⟨rfl, rfl, id, hsame⟩
  | tryRecv =>
    simp only [step, ofReceiver] at h
    split at h
    · rename_i halive
      cases h
      exact ⟨rfl, rfl, fun _ => halive, hwake _⟩
    · cases h
      exact ⟨rfl, rfl, id, hsame⟩
  | dropReceiver =>
    simp only [step, ofReceiver] at h
    split at h
    · rename_i halive
      cases h
      exact ⟨rfl, rfl, fun _ => halive, hwake _⟩
    · cases h
      exact ⟨rfl, rfl, id, hsame⟩
  | wake waker =>
    cases h
    exact ⟨rfl, rfl, id, hwake _⟩
  | clone | dropSender | send | trySend | poll | resume | dropSend => cases hop

/-- What the senders do, and whoever else is not the receiver. -/
structure Sends (c c' : Mpsc τ ω) (a : Answer τ) : Prop where
  delivered : a.delivered = none
  receiverAlive : c'.state.receiverAlive = c.state.receiverAlive
  accepted : c.state.receiverAlive = false → a.accepted = none
  senders : (∀ i, c.senders.get i = none) → ∀ i, c'.senders.get i = none

omit [DecidableEq ω] in
theorem Sends.refl (c : Mpsc τ ω) : Sends c c .done := ⟨rfl, rfl, fun _ => rfl, id⟩

omit [DecidableEq ω] in
/-- Nothing is sent to a receiver that is dropped. -/
theorem lockSection_dead {f f' : SendFuture τ} {s s' : State τ ω} {value : τ} {waker : ω}
    {stage : Stage τ} {woken : List ω} {outcome : Outcome τ} (hdead : s.receiverAlive = false)
    (hf : stage.Carries f value) (h : f.lockSection s waker stage = some (s', f', woken, outcome)) :
    outcome ≠ .returns (.ready (.ok ())) := by
  rintro rfl
  cases stage with
  | check =>
    rw [SendFuture.lockSection, if_pos hdead, SendFuture.giveBack] at h
    obtain ⟨v, -, h⟩ := Option.map_eq_some_iff.mp h
    cases h
  | register =>
    simp only [SendFuture.lockSection] at h
    split at h <;> cases h
  | insert id =>
    rw [SendFuture.lockSection, if_pos hdead, SendFuture.giveBack] at h
    obtain ⟨v, -, h⟩ := Option.map_eq_some_iff.mp h
    cases h
  | enqueue v =>
    rw [SendFuture.lockSection, if_pos hdead] at h
    cases h
  | drop result =>
    have hf : result = .error value := hf
    rw [SendFuture.lockSection, hf] at h
    cases h

theorem Sends.advance {i : Nat} {p : Send τ ω} {stage : Stage τ} {waker : ω}
    (hp : stage.Carries p.future p.sent) (h : c.advance i p stage waker = some (c', a)) :
    Sends c c' a := by
  obtain ⟨s', f', woken, outcome, hsection, -, -⟩ := lockSection_spec hp c.state waker
  have halive := receiverAlive_lockSection hsection
  have hdead := fun hdead => lockSection_dead hdead hp hsection
  simp only [Mpsc.advance, hsection, Option.map_some, Option.some.injEq] at h
  split at h
  · cases h
    exact ⟨rfl, halive, fun _ => rfl, id⟩
  · cases h
    exact ⟨rfl, halive, fun _ => rfl, id⟩
  · rename_i result
    cases h
    refine ⟨rfl, halive, fun h => ?_, id⟩
    cases result with
    | error e => rfl
    | ok u => exact absurd rfl (hdead h)

omit [DecidableEq ω] in
theorem Sends.ofSender {i : Nat} {r : Mpsc τ ω × Answer τ}
    (hr : c.senders.get i = some () → Sends c r.1 r.2) (h : c.ofSender i r = (c', a)) :
    Sends c c' a := by
  simp only [Mpsc.ofSender] at h
  split at h
  · cases h
    exact .refl c
  · rename_i u hi
    cases h
    exact hr hi

theorem step_sends (hinv : Inv n c answers) (hop : op.fromReceiver = false)
    (h : c.step op = some (c', a)) : Sends c c' a := by
  have hsome : ∀ {i : Nat}, c.senders.get i = some () → ∀ P : Prop,
      (∀ i, c.senders.get i = none) → P := fun hi P hnone => by
    rw [hnone _] at hi
    cases hi
  cases op with
  | clone i => exact .ofSender (fun hi => ⟨rfl, rfl, fun _ => rfl, hsome hi _⟩) (Option.some.inj h)
  | dropSender i =>
    refine .ofSender (fun hi => ⟨rfl, receiverAlive_dropSender, fun _ => rfl, hsome hi _⟩)
      (Option.some.inj h)
  | send i value => exact .ofSender (fun hi => ⟨rfl, rfl, fun _ => rfl, hsome hi _⟩) (Option.some.inj h)
  | trySend i value =>
    refine .ofSender (fun hi => ⟨rfl, receiverAlive_trySend value, fun hdead => ?_, hsome hi _⟩)
      (Option.some.inj h)
    simp only [State.trySend, if_pos hdead]
    rfl
  | poll i waker =>
    have h : c.poll i waker = some (c', a) := h
    simp only [poll] at h
    split at h
    · cases h
      exact .refl c
    · rename_i p hi
      have hp := hinv.held i p hi
      simp only [Send.Holds] at hp
      split at h
      · cases h
        exact .refl c
      · rename_i hpoll
        rw [hpoll] at hp
        have hp : Stage.check.Carries p.future p.sent := hp
        exact .advance (p := { p with waker := some waker, woken := false }) hp h
  | resume i =>
    have h : c.resume i = some (c', a) := h
    simp only [resume] at h
    split at h
    · cases h
      exact .refl c
    · rename_i p hi
      have hp := hinv.held i p hi
      simp only [Send.Holds] at hp
      split at h
      · rename_i stage waker hpoll
        rw [hpoll] at hp
        exact .advance hp h
      · cases h
        exact .refl c
  | dropSend i =>
    have h : c.dropSend i = (c', a) := Option.some.inj h
    simp only [dropSend] at h
    split at h
    · cases h
      exact .refl c
    · split at h
      · cases h
        exact .refl c
      · cases h
        refine ⟨rfl, ?_, fun _ => rfl, id⟩
        simp only [SendFuture.drop]
        split <;> rfl
  | wake waker =>
    cases h
    exact ⟨rfl, rfl, fun _ => rfl, id⟩
  | recv | tryRecv | dropReceiver => cases hop

theorem step_dropSender {i : Nat} (hi : c.senders.get i = some ()) :
    ∃ c', c.step (.dropSender i) = some (c', .done) ∧ c'.state.receiverAlive = c.state.receiverAlive ∧
      c'.senders = c.senders.erase i := by
  simp only [step, ofSender, hi]
  exact ⟨_, rfl, receiverAlive_dropSender, rfl⟩

theorem step_dropReceiver (halive : c.state.receiverAlive = true) :
    ∃ c', c.step .dropReceiver = some (c', .done) ∧ c'.state.receiverAlive = false ∧
    c'.senders = c.senders := by
  simp only [step, ofReceiver, halive, if_true]
  exact ⟨_, rfl, rfl, rfl⟩

/-- `send` is called, from a sender or a clone of it. -/
theorem step_send {i : Nat} (hi : c.senders.get i = some ()) (value : τ) :
    ∃ c', c.step (.send i value) = some (c', .done) ∧ c'.state.receiverAlive = c.state.receiverAlive ∧
      c'.senders = c.senders ∧ c'.sends = c.sends.insert ⟨⟨some value, none⟩, none, value, none,
        false⟩ := by
  simp only [step, ofSender, hi]
  exact ⟨_, rfl, rfl, rfl, rfl⟩

theorem step_clone {i : Nat} (hi : c.senders.get i = some ()) :
    ∃ c', c.step (.clone i) = some (c', .done) ∧ c'.state.receiverAlive = c.state.receiverAlive ∧
      c'.senders = c.senders.insert () ∧ c'.sends = c.sends := by
  simp only [step, ofSender, hi]
  exact ⟨_, rfl, rfl, rfl, rfl⟩

theorem Inv.of_step (h : Inv n c answers) (hs : c.step op = some (c', a)) :
    Inv n c' (answers ++ [a]) := by
  obtain ⟨⟨c₁, a₁⟩, hs', hinv, -⟩ := h.step op
  cases hs.symm.trans hs'
  exact hinv

/-- A poll that nothing interrupts gives the value back, sends it, or waits. -/
theorem sections_poll (waker : ω) {i : Nat} {p : Send τ ω} (hi : c.sends.get i = some p)
    (hp : p.polling = none) (hv : p.future.value = some p.sent) :
    ∃ c' answers, Machine.run step c (Op.sections (.poll i waker)) = some (c', answers) ∧
    c'.senders = c.senders ∧
      c'.state.receiverAlive = c.state.receiverAlive ∧ received answers = [] ∧
      (sendResult? answers = some (.error p.sent) ∧ accepted answers = [] ∧
        c.state.receiverAlive = false ∨
        sendResult? answers = some (.ok ()) ∧ accepted answers = [p.sent] ∧ c.state.receiverAlive = true ∨
        sendResult? answers = none ∧ accepted answers = [] ∧ ∃ p',
        c'.sends.get i = some p' ∧ p'.polling = none ∧
          p'.sent = p.sent) := by
  simp only [Op.sections, Machine.run, step, poll, hi, hp, advance, SendFuture.lockSection]
  have hdrop : ∀ (f : SendFuture τ) (s : State τ ω), (f.drop s).receiverAlive = s.receiverAlive :=
    fun f s => by
    unfold SendFuture.drop
    split <;> rfl
  split
  · rename_i hr
    simp only [SendFuture.giveBack, hv, resume, advance, SendFuture.lockSection, wake_nil,
      Option.map_some, Option.bind_some,
      Table.get_set_self hi, Table.erase_set, Table.get_erase_self]
    exact ⟨_, _, rfl, rfl, hdrop _ _, rfl, .inl ⟨rfl, rfl, hr⟩⟩
  · rename_i hr
    split
    · cases hid : p.future.waiterId with
      | none =>
        simp only [resume, advance, SendFuture.lockSection, wake_nil, Option.map_some,
          Option.bind_some, Table.get_set_self hi,
          Table.set_set, hid, if_neg hr]
        exact ⟨_, _, rfl, rfl, rfl, rfl, .inr (.inr ⟨rfl, rfl, _, Table.get_set_self hi, rfl, rfl⟩)⟩
      | some id =>
        simp only [resume, advance, SendFuture.lockSection, wake_nil, Option.map_some,
          Option.bind_some, Table.get_set_self hi,
          Table.set_set, hid, if_neg hr]
        exact ⟨_, _, rfl, rfl, rfl, rfl, .inr (.inr ⟨rfl, rfl, _, Table.get_set_self hi, rfl, rfl⟩)⟩
    · rename_i hq
      simp only [hv, resume, advance, SendFuture.lockSection, wake_nil, Option.map_some,
        Option.bind_some, Table.get_set_self hi,
        Table.erase_set, get_wake_erase, if_neg hr, if_neg hq]
      exact ⟨_, _, rfl, rfl, hdrop _ _, rfl, .inr (.inl ⟨rfl, rfl, by simpa using hr⟩)⟩

end Mpsc

namespace Tonic

open Mpsc (accepted received)

/-! ## What a loop makes of the items -/

namespace Relaying

variable {α β : Type} {loop : Relaying α β} {l l' : List α}

/-- The items that are sent for those that are read. -/
def relayed (loop : Relaying α β) : List α → List β
  | [] => []
  | item :: l =>
    match loop.forward item with
    | .send item => item :: loop.relayed l
    | .sendLast item => [item]
    | .leave => []

/-- The loop goes on after each of the items. -/
def Runs (loop : Relaying α β) (l : List α) : Prop := ∀ item ∈ l, ∃ b, loop.forward item = .send b

theorem relayed_append (h : loop.Runs l) :
    loop.relayed (l ++ l') = loop.relayed l ++ loop.relayed l' := by
  induction l with
  | nil => rfl
  | cons item l ih =>
    obtain ⟨b, hb⟩ := h item List.mem_cons_self
    simp [relayed, hb, ih fun x hx => h x (List.mem_cons_of_mem _ hx)]

theorem Runs.concat (h : loop.Runs l) {item : α} {b : β} (hb : loop.forward item = .send b) :
    loop.Runs (l ++ [item]) := by
  intro x hx
  rcases List.mem_append.mp hx with hx | hx
  · exact h x hx
  · exact ⟨b, List.mem_singleton.mp hx ▸ hb⟩

theorem relayed_prefix (h : l <+: l') : loop.relayed l <+: loop.relayed l' := by
  induction l generalizing l' with
  | nil => exact List.nil_prefix
  | cons item l ih =>
    obtain ⟨rest, rfl⟩ := h
    simp only [List.cons_append, relayed]
    split
    · exact (List.prefix_cons_inj _).mpr (ih (List.prefix_append l rest))
    · exact List.prefix_rfl
    · exact List.prefix_rfl

end Relaying

/-! ## The task -/

namespace Relay

variable {α β ω : Type} {loop : Relaying α β} {n m : Nat} {r : Relay α β ω} {ins : List (Mpsc.Answer α)}
  {outs : List (Mpsc.Answer β)}

/-- Nothing that was read is missing in what was sent, unless nobody receives it. -/
def Forwarded (loop : Relaying α β) (r : Relay α β ω) (ins : List (Mpsc.Answer α))
    (outs : List (Mpsc.Answer β)) : Prop :=
  r.output.state.receiverAlive = true → accepted outs = loop.relayed (received ins)

/-- The item ends the stream, or the first channel has no item left and no sender. -/
def Finished (loop : Relaying α β) (r : Relay α β ω) (ins : List (Mpsc.Answer α)) : Prop :=
  ¬loop.Runs (received ins) ∨ received ins = accepted ins ∧ ∀ i, r.input.senders.get i = none

/-- The item of the future is the last of what is to be sent. -/
structure Sending (loop : Relaying α β) (r : Relay α β ω) (ins : List (Mpsc.Answer α))
    (outs : List (Mpsc.Answer β))
    (send : Nat) : Prop where
  sending : ∃ p, r.output.sends.get send = some p ∧ p.polling = none ∧ ∃ old,
    loop.relayed (received ins) = old ++ [p.sent] ∧
    accepted outs <+: old ∧ (r.output.state.receiverAlive = true → accepted outs = old)

/-- The task is in its loop. -/
structure Looping (r : Relay α β ω) : Prop where
  receiver : r.input.state.receiverAlive = true
  sender : r.output.senders.get 0 = some ()

/-- What holds where the task stands. -/
def Stands (loop : Relaying α β) (r : Relay α β ω) (ins : List (Mpsc.Answer α))
    (outs : List (Mpsc.Answer β)) : Prop :=
  match r.stage with
  | .next => r.Looping ∧ loop.Runs (received ins) ∧ r.Forwarded loop ins outs
  | .send clone send last =>
    r.Looping ∧ (∀ a ∈ clone, a ≠ 0) ∧ (loop.Runs (received ins) ↔ last = false) ∧
      r.Sending loop ins outs send
  | .done => r.input.state.receiverAlive = false ∧ r.Forwarded loop ins outs ∧
      (r.output.state.receiverAlive = true → r.Finished loop ins)

/-- After the operations that were answered so. -/
structure Inv (loop : Relaying α β) (n m : Nat) (r : Relay α β ω) (ins : List (Mpsc.Answer α))
    (outs : List (Mpsc.Answer β)) :
    Prop where
  input : Mpsc.Inv n r.input ins
  output : Mpsc.Inv m r.output outs
  sent : accepted outs <+: loop.relayed (received ins)
  stands : r.Stands loop ins outs

/-- Nothing panics, and the invariant holds after. -/
def Kept (loop : Relaying α β) (n m : Nat) (ins : List (Mpsc.Answer α)) (outs : List (Mpsc.Answer β))
    (x : Option (Relay α β ω × Answers α β)) : Prop :=
  ∃ r ins' outs', x = some (r, ins', outs') ∧ Inv loop n m r (ins ++ ins') (outs ++ outs')

theorem Inv.kept (h : Inv loop n m r ins outs) : Kept loop n m ins outs (some (r, [], [])) :=
  ⟨r, [], [], rfl, by simpa using h⟩

theorem Kept.andThen {ins' : List (Mpsc.Answer α)} {outs' : List (Mpsc.Answer β)}
    {f : Relay α β ω → Answers α β → Option (Relay α β ω × Answers α β)}
    (h : Kept loop n m (ins ++ ins') (outs ++ outs') (f r (ins', outs'))) :
    Kept loop n m ins outs (andThen (some (r, ins', outs')) f) := by
  obtain ⟨r', ins₁, outs₁, he, hinv⟩ := h
  refine ⟨r', ins' ++ ins₁, outs' ++ outs₁, by simp [Relay.andThen, he], ?_⟩
  rwa [List.append_assoc, List.append_assoc] at hinv

theorem accepted_append (l l' : List (Mpsc.Answer β)) :
    accepted (l ++ l') = accepted l ++ accepted l' :=
  List.filterMap_append

theorem received_append (l l' : List (Mpsc.Answer β)) :
    received (l ++ l') = received l ++ received l' :=
  List.filterMap_append

variable [DecidableEq ω]

omit [DecidableEq ω] in
theorem accepted_concat {a : Mpsc.Answer β} (h : a.accepted = none) (l : List (Mpsc.Answer β)) :
    accepted (l ++ [a]) = accepted l := by
  simp [accepted, h]

omit [DecidableEq ω] in
theorem received_concat {a : Mpsc.Answer β} (h : a.delivered = none) (l : List (Mpsc.Answer β)) :
    received (l ++ [a]) = received l := by
  simp [received, h]

theorem onOutput_single {op : Mpsc.Op β ω} {output : Mpsc β ω} {a : Mpsc.Answer β}
    (h : r.output.step op = some (output, a)) :
    r.onOutput [op] = some ({ r with output }, [], [a]) := by
  simp [onOutput, Machine.run, h]

theorem onInput_single {op : Mpsc.Op α ω} {input : Mpsc α ω} {a : Mpsc.Answer α}
    (h : r.input.step op = some (input, a)) :
    r.onInput [op] = some ({ r with input }, [a], []) := by
  simp [onInput, Machine.run, h]

theorem close_kept (hin : Mpsc.Inv n r.input ins) (hout : Mpsc.Inv m r.output outs)
    (hloop : r.Looping) (hsent : accepted outs <+: loop.relayed (received ins))
    (hforwarded : r.Forwarded loop ins outs)
    (hfinished : r.output.state.receiverAlive = true → r.Finished loop ins) :
    Kept loop n m ins outs r.close := by
  obtain ⟨output, hclosed, houtput, -⟩ := Mpsc.step_dropSender hloop.sender
  obtain ⟨input, hdropped, hinput, hsenders⟩ := Mpsc.step_dropReceiver hloop.receiver
  have hclosed' := onOutput_single (r := { r with stage := .done }) hclosed
  rw [close, hclosed']
  refine .andThen ⟨_, _, _, onInput_single hdropped, ?_⟩
  rw [List.append_nil, List.append_nil]
  refine ⟨hin.of_step hdropped, hout.of_step hclosed, ?_, hinput, fun halive => ?_, fun halive => ?_⟩
  · rwa [accepted_concat rfl, received_concat rfl]
  · rw [accepted_concat rfl, received_concat rfl]
    exact hforwarded (houtput ▸ halive)
  · rw [Finished, accepted_concat rfl, received_concat rfl]
    exact (hfinished (houtput ▸ halive)).imp_right fun h => ⟨h.1, fun i => hsenders ▸ h.2 i⟩

theorem send_kept (hin : Mpsc.Inv n r.input ins) (hout : Mpsc.Inv m r.output outs)
    (hloop : r.Looping) {item : β} {last : Bool} {old : List β}
    (hitem : loop.relayed (received ins) = old ++ [item]) (hsent : accepted outs <+: old)
    (hforwarded : r.output.state.receiverAlive = true → accepted outs = old)
    (hlast : loop.Runs (received ins) ↔ last = false) :
    Kept loop n m ins outs (r.send loop item last) := by
  have hgot : ∀ {γ : Type} (t : Table γ) (p : γ), (t.insert p).get t.next = some p := fun t p =>
    Table.get_insert_eq_some.mpr (.inl ⟨rfl, rfl⟩)
  -- a future of `send`, from the sender or a clone of it
  have hcalled : ∀ (clone : Option Nat) (output : Mpsc β ω) (outs' : List (Mpsc.Answer β)),
      (∀ a ∈ clone, a ≠ 0) →
        Mpsc.Inv m output (outs ++ outs') → accepted outs' = [] →
        output.state.receiverAlive = r.output.state.receiverAlive →
        output.senders.get 0 = some () →
        output.sends = r.output.sends.insert ⟨⟨some item, none⟩, none, item, none, false⟩ →
        Inv loop n m ⟨r.input, output, .send clone r.output.sends.next last⟩ (ins ++ [])
          (outs ++ outs') := by
    intro clone output outs' hclone hinv hnone halive hsender hsends
    have haccepted : accepted (outs ++ outs') = accepted outs := by
      rw [accepted_append, hnone, List.append_nil]
    rw [List.append_nil]
    refine ⟨hin, hinv, ?_, ⟨hloop.receiver, hsender⟩, hclone, hlast, _, hsends ▸ hgot _ _, rfl, old,
      hitem, ?_, fun h => ?_⟩
    · rw [haccepted, hitem]
      exact hsent.trans (List.prefix_append _ _)
    · rwa [haccepted]
    · rw [haccepted]
      exact hforwarded (halive ▸ h)
  unfold send
  split
  · obtain ⟨cloned, hclone, halive, hsenders, hsends⟩ := Mpsc.step_clone hloop.sender
    have hnew : cloned.senders.get r.output.senders.next = some () := by rw [hsenders, hgot]
    have hold : cloned.senders.get 0 = some () := by
      rw [hsenders]
      exact Table.get_insert_eq_some.mpr (.inr hloop.sender)
    obtain ⟨output, hsend, halive', hsenders', hsends'⟩ := Mpsc.step_send hnew item
    have hinv := (hout.of_step hclone).of_step hsend
    rw [List.append_assoc] at hinv
    refine ⟨⟨r.input, output, .send (some r.output.senders.next) r.output.sends.next last⟩, [],
      [.done, .done], ?_, ?_⟩
    · simp [onOutput, Machine.run, hclone, hsend]
    refine hcalled _ output _ ?_ hinv rfl (halive'.trans halive) (hsenders' ▸ hold) (hsends ▸ hsends')
    rintro a ⟨⟩
    exact (Table.lt_next hloop.sender).ne'
  · obtain ⟨output, hsend, halive, hsenders, hsends⟩ := Mpsc.step_send hloop.sender item
    refine ⟨⟨r.input, output, .send none r.output.sends.next last⟩, [], [.done], ?_, ?_⟩
    · simp [onOutput, Machine.run, hsend]
    exact hcalled none output _ (by simp) (hout.of_step hsend) rfl halive (hsenders ▸ hloop.sender) hsends

/-- After an item was taken from the first channel, or there is none left and no sender. -/
theorem take_kept {a : Mpsc.Answer α} {item : Option α} (ha : a = .received (.ready item))
    (hin : Mpsc.Inv n r.input (ins ++ [a])) (hout : Mpsc.Inv m r.output outs) (hloop : r.Looping)
    (hruns : loop.Runs (received ins)) (hsent : accepted outs <+: loop.relayed (received ins))
    (hforwarded : r.Forwarded loop ins outs)
    (hnone : item = none → received ins = accepted ins ∧ ∀ i, r.input.senders.get i = none) :
    Kept loop n m (ins ++ [a]) outs (r.take loop item) := by
  subst ha
  cases item with
  | none =>
    obtain ⟨hall, hsenders⟩ := hnone rfl
    have hread : received (ins ++ [.received (.ready none)]) = received ins := received_concat rfl ins
    refine close_kept hin hout hloop (hread ▸ hsent) (fun halive => ?_)
      (fun halive => .inr ⟨?_, hsenders⟩)
    · rw [hread]
      exact hforwarded halive
    · rw [hread, accepted_concat rfl, hall]
  | some item =>
    have hread : received (ins ++ [.received (.ready (some item))]) = received ins ++ [item] :=
      received_append _ _
    have hrelayed : loop.relayed (received (ins ++ [.received (.ready (some item))])) =
        loop.relayed (received ins) ++ loop.relayed [item] := by rw [hread, Relaying.relayed_append hruns]
    have hstop : (∀ b, loop.forward item ≠ .send b) → ¬loop.Runs
        (received (ins ++ [.received (.ready (some item))])) := by
      intro hno h
      obtain ⟨b, hb⟩ := h item (by rw [hread]; simp)
      exact hno b hb
    simp only [take]
    split
    · rename_i b hb
      refine send_kept hin hout hloop (hrelayed.trans ?_) hsent hforwarded ?_
      · simp [Relaying.relayed, hb]
      · rw [hread]
        exact ⟨fun _ => rfl, fun _ => hruns.concat hb⟩
    · rename_i b hb
      refine send_kept hin hout hloop (hrelayed.trans ?_) hsent hforwarded ?_
      · simp [Relaying.relayed, hb]
      · exact ⟨fun h => absurd h (hstop (by simp [hb])), fun h => by cases h⟩
    · rename_i hb
      have hsame : loop.relayed [item] = [] := by simp [Relaying.relayed, hb]
      rw [hsame, List.append_nil] at hrelayed
      refine close_kept hin hout hloop (hrelayed ▸ hsent) (fun halive => ?_) fun _ =>
        .inl (hstop (by simp [hb]))
      rw [hrelayed]
      exact hforwarded halive

/-- After the future of `send` is done. -/
theorem sent_kept {clone : Option Nat} {last : Bool} {result : Except β Unit}
    (hin : Mpsc.Inv n r.input ins) (hout : Mpsc.Inv m r.output outs) (hloop : r.Looping)
    (hclone : ∀ a ∈ clone, a ≠ 0) (hlast : loop.Runs (received ins) ↔ last = false)
    (hsent : accepted outs <+: loop.relayed (received ins)) (hforwarded : r.Forwarded loop ins outs)
    (hdead : ∀ e, result = .error e → r.output.state.receiverAlive = false) :
    Kept loop n m ins outs (r.sent loop clone last result) := by
  obtain ⟨output, outs', hrun, hinv, hnone, halive, hsender⟩ : ∃ output outs',
      Machine.run Mpsc.step r.output (clone.toList.map .dropSender) = some (output, outs') ∧
      Mpsc.Inv m output (outs ++ outs') ∧
        accepted outs' = [] ∧ output.state.receiverAlive = r.output.state.receiverAlive ∧
        output.senders.get 0 = some () := by
    cases clone with
    | none => exact ⟨r.output, [], rfl, by simpa using hout, rfl, rfl, hloop.sender⟩
    | some a =>
      simp only [Option.toList_some, List.map_cons, List.map_nil]
      cases ha : r.output.senders.get a with
      | none =>
        have hdropped : r.output.step (.dropSender a) = some (r.output, .done) := by
          simp [Mpsc.step, Mpsc.ofSender, ha]
        exact ⟨r.output, [.done], by simp [Machine.run, hdropped], hout.of_step hdropped, rfl, rfl,
          hloop.sender⟩
      | some u =>
        obtain ⟨output, hdropped, halive, hsenders⟩ := Mpsc.step_dropSender ha
        refine ⟨output, [.done], by simp [Machine.run, hdropped], hout.of_step hdropped, rfl, halive, ?_⟩
        rw [hsenders]
        exact Table.get_erase_eq_some.mpr ⟨(hclone a rfl).symm, hloop.sender⟩
  have haccepted : accepted (outs ++ outs') = accepted outs := by
    rw [accepted_append, hnone, List.append_nil]
  have hloop' : Looping (⟨r.input, output, .next⟩ : Relay α β ω) := ⟨hloop.receiver, hsender⟩
  have hsent' : accepted (outs ++ outs') <+: loop.relayed (received ins) := haccepted ▸ hsent
  have hforwarded' : Forwarded loop (⟨r.input, output, .next⟩ : Relay α β ω) ins (outs ++ outs') :=
    fun h => by
    rw [haccepted]
    exact hforwarded (halive ▸ h)
  have hclose : (output.state.receiverAlive = true → last = true) →
      Kept loop n m ins (outs ++ outs') (close (⟨r.input, output, .next⟩ : Relay α β ω)) := fun h =>
    close_kept hin hinv hloop' hsent' hforwarded' fun halive => .inl fun hruns => by
      rw [hlast.mp hruns] at h
      cases h halive
  rw [sent, onOutput, hrun]
  refine .andThen ?_
  rw [List.append_nil]
  cases result with
  | ok u =>
    dsimp only
    split
    · rename_i hl
      exact hclose fun _ => hl
    · rename_i hl
      exact Inv.kept ⟨hin, hinv, hsent', hloop', hlast.mpr (by simpa using hl), hforwarded'⟩
  | error e =>
    have hgone : output.state.receiverAlive ≠ true := by rw [halive, hdead e rfl]; decide
    dsimp only
    split
    · exact hclose fun h => absurd h hgone
    · rename_i hl
      exact Inv.kept ⟨hin, hinv, hsent', hloop', hlast.mpr (by simp at hl; exact hl.1), hforwarded'⟩

theorem next_kept (h : Inv loop n m r ins outs) (hloop : r.Looping) (hruns : loop.Runs (received ins))
    (hforwarded : r.Forwarded loop ins outs) (hstage : r.stage = .next) (waker : ω) :
    Kept loop n m ins outs (r.advance loop waker) := by
  simp only [advance, hstage]
  obtain ⟨⟨input, a⟩, hstep, hinv, -⟩ := h.input.step (.recv waker)
  rw [onInput_single hstep]
  refine .andThen ?_
  obtain ⟨hanswer, hsenders, halive⟩ : a = .received (r.input.state.recv waker).2.2 ∧
    input.senders = r.input.senders ∧
      input.state.receiverAlive = r.input.state.receiverAlive := by
    simp only [Mpsc.step, Mpsc.ofReceiver, hloop.receiver, if_true, Option.some.injEq,
      Prod.mk.injEq] at hstep
    obtain ⟨rfl, rfl⟩ := hstep
    refine ⟨rfl, rfl, ?_⟩
    show (r.input.state.recv waker).1.receiverAlive = _
    simp only [Mpsc.State.recv]
    split
    · rfl
    · split <;> rfl
  have hloop' : Looping { r with input } := ⟨halive.trans hloop.receiver, hloop.sender⟩
  rw [List.append_nil]
  split
  · rename_i item heq
    have ha : a = .received (.ready item) := by simpa using heq
    refine take_kept ha hinv h.output hloop' hruns h.sent hforwarded ?_
    rintro rfl
    rw [ha] at hstep
    obtain ⟨hnone, hall⟩ := h.input.recv_none hstep
    exact ⟨hall, fun i => hsenders ▸ hnone i⟩
  · rename_i hother
    have hpending : (r.input.state.recv waker).2.2 = .pending := by
      cases hp : (r.input.state.recv waker).2.2 with
      | pending => rfl
      | ready item =>
        rw [hp] at hanswer
        exact absurd (congrArg (fun a => [a]) hanswer) (hother item)
    have hread : received (ins ++ [a]) = received ins :=
      received_concat (by rw [hanswer, hpending]; rfl) ins
    refine Inv.kept ⟨hinv, h.output, hread ▸ h.sent, ?_⟩
    rw [Stands, hstage]
    exact ⟨⟨hloop'.receiver, hloop'.sender⟩, hread ▸ hruns, fun h => hread ▸ hforwarded h⟩

theorem poll_kept (h : Inv loop n m r ins outs) {clone : Option Nat} {send : Nat} {last : Bool}
    (hloop : r.Looping) (hclone : ∀ a ∈ clone, a ≠ 0)
    (hlast : loop.Runs (received ins) ↔ last = false) (hsending : r.Sending loop ins outs send)
    (hstage : r.stage = .send clone send last) (waker : ω) :
    Kept loop n m ins outs (r.advance loop waker) := by
  simp only [advance, hstage]
  obtain ⟨p, hp, hidle, old, hrelayed, hsent, hforwarded⟩ := hsending
  have hvalue : p.future.value = some p.sent := by
    have := h.output.held send p hp
    rwa [Mpsc.Send.Holds, hidle] at this
  obtain ⟨output, outs', hrun, hsenders, halive, -, hresult⟩ := Mpsc.sections_poll waker hp hidle hvalue
  have hinv : Mpsc.Inv m output (outs ++ outs') := by
    obtain ⟨output', outs'', hrun', hinv, -⟩ := h.output.run (Mpsc.Op.sections (.poll send waker))
    cases hrun.symm.trans hrun'
    exact hinv
  have hloop' : Looping { r with output } := ⟨hloop.receiver, by rw [hsenders]; exact hloop.sender⟩
  rw [onOutput, hrun]
  refine .andThen ?_
  rw [List.append_nil]
  rcases hresult with ⟨hres, hnone, hdead⟩ | ⟨hres, hone, hlive⟩ | ⟨hres, hnone, p', hp', hidle', hsame⟩
  · simp only [hres]
    have haccepted : accepted (outs ++ outs') = accepted outs := by
      rw [accepted_append, hnone, List.append_nil]
    have hgone : output.state.receiverAlive = false := halive.trans hdead
    refine sent_kept h.input hinv hloop' hclone hlast ?_ (fun h => ?_) fun _ _ => hgone
    · rw [haccepted, hrelayed]
      exact hsent.trans (List.prefix_append _ _)
    · have hlive : output.state.receiverAlive = true := h
      rw [hgone] at hlive
      cases hlive
  · simp only [hres]
    have haccepted : accepted (outs ++ outs') = loop.relayed (received ins) := by
      rw [accepted_append, hone, hforwarded hlive, hrelayed]
    exact sent_kept h.input hinv hloop' hclone hlast (haccepted ▸ List.prefix_rfl)
      (fun _ => haccepted) (by simp)
  · simp only [hres]
    have haccepted : accepted (outs ++ outs') = accepted outs := by
      rw [accepted_append, hnone, List.append_nil]
    refine Inv.kept ⟨h.input, hinv, haccepted ▸ h.sent, ?_⟩
    rw [Stands, hstage]
    refine ⟨⟨hloop'.receiver, hloop'.sender⟩, hclone, hlast, p', hp', hidle', old, hsame ▸ hrelayed,
      haccepted ▸ hsent, fun h => ?_⟩
    rw [haccepted]
    exact hforwarded (halive ▸ h)

theorem input_kept (h : Inv loop n m r ins outs) {op : Mpsc.Op α ω} (hop : op.fromReceiver = false) :
    Kept loop n m ins outs (r.onInput [op]) := by
  obtain ⟨⟨input, a⟩, hstep, hinv, -⟩ := h.input.step op
  have hsends := Mpsc.step_sends h.input hop hstep
  have halive := hsends.receiverAlive
  have hread : received (ins ++ [a]) = received ins := received_concat hsends.delivered ins
  refine ⟨_, _, _, onInput_single hstep, ?_⟩
  rw [List.append_nil]
  refine ⟨hinv, h.output, hread ▸ h.sent, ?_⟩
  have hstands := h.stands
  rw [Stands] at hstands ⊢
  dsimp only
  cases hstage : r.stage with
  | next =>
    rw [hstage] at hstands
    obtain ⟨hloop, hruns, hforwarded⟩ := hstands
    exact ⟨⟨halive.trans hloop.receiver, hloop.sender⟩, hread ▸ hruns, fun h => hread ▸ hforwarded h⟩
  | send clone send last =>
    rw [hstage] at hstands
    obtain ⟨hloop, hclone, hlast, p, hp, hidle, old, hrelayed, hrest⟩ := hstands
    exact ⟨⟨halive.trans hloop.receiver, hloop.sender⟩, hclone, hread ▸ hlast, p, hp, hidle, old,
      hread ▸ hrelayed, hrest⟩
  | done =>
    rw [hstage] at hstands
    obtain ⟨hdead, hforwarded, hfinished⟩ := hstands
    refine ⟨halive.trans hdead, fun h => hread ▸ hforwarded h,
      fun h => (hfinished h).imp (hread ▸ ·) fun h => ?_⟩
    rw [hread, accepted_concat (hsends.accepted hdead)]
    exact ⟨h.1, hsends.senders h.2⟩

theorem output_kept (h : Inv loop n m r ins outs) {op : Mpsc.Op β ω} (hop : op.fromSender = false) :
    Kept loop n m ins outs (r.onOutput [op]) := by
  obtain ⟨⟨output, a⟩, hstep, hinv, -⟩ := h.output.step op
  obtain ⟨hnone, hsenders, halive, hsends⟩ := Mpsc.step_receives hop hstep
  have haccepted : accepted (outs ++ [a]) = accepted outs := accepted_concat hnone outs
  refine ⟨_, _, _, onOutput_single hstep, ?_⟩
  rw [List.append_nil]
  refine ⟨h.input, hinv, haccepted ▸ h.sent, ?_⟩
  have hstands := h.stands
  rw [Stands] at hstands ⊢
  dsimp only
  cases hstage : r.stage with
  | next =>
    rw [hstage] at hstands
    obtain ⟨hloop, hruns, hforwarded⟩ := hstands
    exact ⟨⟨hloop.receiver, hsenders ▸ hloop.sender⟩, hruns, fun h => haccepted ▸ hforwarded (halive h)⟩
  | send clone send last =>
    rw [hstage] at hstands
    obtain ⟨hloop, hclone, hlast, p, hp, hidle, old, hrelayed, hsent, hforwarded⟩ := hstands
    obtain ⟨woken, hp'⟩ := hsends send p hp
    refine ⟨⟨hloop.receiver, hsenders ▸ hloop.sender⟩, hclone, hlast, _, hp', hidle, old, hrelayed,
      haccepted ▸ hsent, fun h => ?_⟩
    rw [haccepted]
    exact hforwarded (halive h)
  | done =>
    rw [hstage] at hstands
    obtain ⟨hdead, hforwarded, hfinished⟩ := hstands
    exact ⟨hdead, fun h => haccepted ▸ hforwarded (halive h), fun h => hfinished (halive h)⟩

theorem step_kept (h : Inv loop n m r ins outs) (op : Op α β ω) :
    Kept loop n m ins outs (r.step loop op) := by
  cases op with
  | input op =>
    simp only [step]
    split
    · exact h.kept
    · rename_i hop
      exact input_kept h (by simpa using hop)
  | output op =>
    simp only [step]
    split
    · exact h.kept
    · rename_i hop
      exact output_kept h (by simpa using hop)
  | advance waker =>
    show Kept loop n m ins outs (r.advance loop waker)
    have hstands := h.stands
    rw [Stands] at hstands
    cases hstage : r.stage with
    | next =>
      rw [hstage] at hstands
      exact next_kept h hstands.1 hstands.2.1 hstands.2.2 hstage waker
    | send clone send last =>
      rw [hstage] at hstands
      exact poll_kept h hstands.1 hstands.2.1 hstands.2.2.1 hstands.2.2.2 hstage waker
    | done =>
      simp only [advance, hstage]
      exact h.kept

/-! ## Runs -/

/-- What the operations on the first channel answered. -/
def inputs (answers : List (Answers α β)) : List (Mpsc.Answer α) := answers.flatMap (·.1)

/-- What the operations on the second channel answered. -/
def outputs (answers : List (Answers α β)) : List (Mpsc.Answer β) := answers.flatMap (·.2)

theorem Inv.run (h : Inv loop n m r ins outs) (ops : List (Op α β ω)) :
    ∃ r' answers, Machine.run (step loop) r ops = some (r', answers) ∧
      Inv loop n m r' (ins ++ inputs answers) (outs ++ outputs answers) := by
  induction ops generalizing r ins outs with
  | nil => exact ⟨r, [], rfl, by simpa [inputs, outputs] using h⟩
  | cons op ops ih =>
    obtain ⟨r₁, ins', outs', hstep, h₁⟩ := step_kept h op
    obtain ⟨r', answers, hrun, h'⟩ := ih h₁
    refine ⟨r', (ins', outs') :: answers, Machine.run_cons.mpr ⟨r₁, _, answers, hstep, hrun, rfl⟩, ?_⟩
    simpa [inputs, outputs] using h'

omit [DecidableEq ω] in
theorem Inv.spawn (loop : Relaying α β) {input : Mpsc α ω} {output : Mpsc β ω}
    (hin : Mpsc.channel n = some input) (hout : Mpsc.channel m = some output) :
    Inv loop n m (spawn input output) [] [] := by
  refine ⟨.new hin, .new hout, List.prefix_rfl, ⟨?_, ?_⟩, fun _ h => absurd h List.not_mem_nil,
    fun _ => rfl⟩
  · simp only [Mpsc.channel, Option.ite_none_left_eq_some, Option.some.injEq] at hin
    obtain ⟨-, rfl⟩ := hin
    rfl
  · simp only [Mpsc.channel, Option.ite_none_left_eq_some, Option.some.injEq] at hout
    obtain ⟨-, rfl⟩ := hout
    rfl

/-- In every run, the operations on the two ends in any order: what was received of the second
channel is, in order, what the loop makes of a part of what was sent to the first one; and where the
second channel has ended it is all of it, and the stream was ended by an item, or all that was sent
to the first channel was read and it has no sender. -/
theorem run_relayed {input : Mpsc α ω} {output : Mpsc β ω} (hin : Mpsc.channel n = some input)
    (hout : Mpsc.channel m = some output) (loop : Relaying α β) (ops : List (Op α β ω)) :
    ∃ r answers, Machine.run (step loop) (spawn input output) ops = some (r, answers) ∧
      received (inputs answers) <+: accepted (inputs answers) ∧
      received (outputs answers) <+: loop.relayed (received (inputs answers)) ∧
      r.output.state.queue.length ≤ m ∧
      ∀ waker c', r.output.step (.recv waker) = some (c', .received (.ready none)) →
        received (outputs answers) = loop.relayed (received (inputs answers)) ∧
          (¬loop.Runs (received (inputs answers)) ∨
            received (inputs answers) = accepted (inputs answers) ∧ ∀ i,
            r.input.senders.get i = none) := by
  obtain ⟨r, answers, hrun, h⟩ := (Inv.spawn loop hin hout).run ops
  rw [List.nil_append, List.nil_append] at h
  have hfifo : received (outputs answers) <+: accepted (outputs answers) := ⟨_, h.output.fifo⟩
  refine ⟨r, answers, hrun, ⟨_, h.input.fifo⟩, hfifo.trans h.sent, h.output.bounded,
    fun waker c' hnone => ?_⟩
  obtain ⟨hsenders, hall⟩ := h.output.recv_none hnone
  have halive : r.output.state.receiverAlive = true := by
    by_contra hdead
    simp only [Mpsc.step, Mpsc.ofReceiver, if_neg hdead, Option.some.injEq, Prod.mk.injEq] at hnone
    cases hnone.2
  have hstands := h.stands
  rw [Stands] at hstands
  -- only a task that is done has dropped its sender
  have hdone : r.Looping → False := fun hloop => by
    have hsender := hloop.sender
    rw [hsenders] at hsender
    cases hsender
  cases hstage : r.stage with
  | next =>
    rw [hstage] at hstands
    exact absurd hstands.1 hdone
  | send clone send last =>
    rw [hstage] at hstands
    exact absurd hstands.1 hdone
  | done =>
    rw [hstage] at hstands
    obtain ⟨-, hforwarded, hfinished⟩ := hstands
    exact ⟨hall.trans (hforwarded halive), hfinished halive⟩

/-- A message of one byte. -/
instance : ProstMessage UInt8 where
  encodeToVec b := [b]
  decode
    | [b] => .ok b
    | _ => .error "invalid length".toList

instance : LawfulProstMessage UInt8 := ⟨fun _ => rfl⟩

/-- A message and an error are encoded; what is sent after the error is not read. -/
def encoded : List (Op (Except (Status GrpcCode) UInt8) (Item GrpcCode) Nat) :=
  [.input (.trySend 0 (.ok 7)), .input (.trySend 0 (.error ⟨.internal, []⟩)),
    .input (.trySend 0 (.ok 9)), .advance 1, .advance 1,
    .output (.recv 2), .advance 1, .advance 1, .output (.recv 2)]

/-- Bytes are decoded, and bytes that are not a message; what is sent after these is not read. -/
def decoded : List (Op (Item GrpcCode) (Except (Status GrpcCode) UInt8) Nat) :=
  [.input (.trySend 0 (.ok [7])), .input (.trySend 0 (.ok [1, 2])), .input (.trySend 0 (.ok [9])),
    .advance 1, .advance 1, .output (.recv 2), .advance 1, .advance 1, .output (.recv 2)]

/-- A message is sent to the stream, then an error, then a message. -/
def sevenEncoded : List (Op (Except (Status GrpcCode) UInt8) (List UInt8) Nat) :=
  [.input (.trySend 0 (.ok 7)), .input (.trySend 0 (.error ⟨.internal, []⟩)),
    .input (.trySend 0 (.ok 9)), .advance 1, .advance 1,
    .advance 1, .output (.recv 2), .output (.recv 2)]

/-- Two channels with 16 places. -/
def sixteen (α β : Type) : Relay α β Nat :=
  spawn ⟨.new 16, Table.empty.insert (), .empty⟩ ⟨.new 16, Table.empty.insert (), .empty⟩

theorem run_relayed_loops :
    (∃ r answers, Machine.run (step encodeResponses) (sixteen (Except (Status GrpcCode) UInt8) (Item GrpcCode)) encoded =
        some (r, answers) ∧ received (outputs answers) = [.ok [7], .error ⟨.internal, []⟩] ∧
      received (outputs answers) = encodeResponses.relayed (received (inputs answers))) ∧
    (∃ r answers, Machine.run (step decodeItems) (sixteen (Item GrpcCode) (Except (Status GrpcCode) UInt8)) decoded =
        some (r, answers) ∧
      received (outputs answers) = [.ok 7, .error (.internal "prost decode error: invalid length".toList)] ∧
      received (outputs answers) = decodeItems.relayed (received (inputs answers))) ∧
    ∃ r answers, Machine.run (step encodeRequests) (sixteen (Except (Status GrpcCode) UInt8) (List UInt8)) sevenEncoded =
        some (r, answers) ∧ received (outputs answers) = [[7]] ∧
      received (outputs answers) = encodeRequests.relayed (received (inputs answers)) := by
  refine ⟨?_, ?_, ?_⟩
  · obtain ⟨r, answers, hrun, -, -, -, hend⟩ := run_relayed (n := 16)
      (m := 16) rfl rfl encodeResponses encoded
    refine ⟨r, answers, hrun, ?_, ?_⟩
    · cases hrun
      decide
    · cases hrun
      exact (hend 2 _ rfl).1
  · obtain ⟨r, answers, hrun, -, -, -, hend⟩ := run_relayed (n := 16)
      (m := 16) rfl rfl decodeItems decoded
    refine ⟨r, answers, hrun, ?_, ?_⟩
    · cases hrun
      decide
    · cases hrun
      exact (hend 2 _ rfl).1
  · obtain ⟨r, answers, hrun, -, -, -, hend⟩ := run_relayed (n := 16)
      (m := 16) rfl rfl encodeRequests sevenEncoded
    refine ⟨r, answers, hrun, ?_, ?_⟩
    · cases hrun
      decide
    · cases hrun
      exact (hend 2 _ rfl).1

end Relay

/-! ## Requests -/

section
variable {κ μ ω : Type} [ProstMessage μ]

/-- The messages before the first error. -/
def messages : List (Except (Status κ) μ) → List μ
  | .ok message :: l => message :: messages l
  | _ => []

theorem relayed_encodeRequests (l : List (Except (Status κ) μ)) :
    (encodeRequests (κ := κ)).relayed l = (messages l).map ProstMessage.encodeToVec := by
  induction l with
  | nil => rfl
  | cons item l ih =>
    cases item with
    | error status => rfl
    | ok message => simp [Relaying.relayed, encodeRequests, messages, ← ih]

theorem relayed_decodeItems [TonicCode κ] [LawfulProstMessage μ] (l : List μ) :
    (decodeItems (κ := κ) (μ := μ)).relayed ((l.map ProstMessage.encodeToVec).map .ok) = l.map .ok := by
  induction l with
  | nil => rfl
  | cons message l ih =>
    simp only [List.map_cons, Relaying.relayed, decodeItems, LawfulProstMessage.decode_encodeToVec]
    exact congrArg _ ih

/-- A stream of requests from one side to the other: they are encoded by a task of the client, sent
in frames that may be late, in any order or lost, and decoded by a task of the server. What the
handler is given are, in order, the first of the messages that the client sent, and none that was
sent after an error. -/
theorem received_typed {n n' m m' : Nat} [DecidableEq ω] [TonicCode κ] [LawfulTonicCode κ]
    [LawfulProstMessage μ] {typed : Mpsc (Except (Status κ) μ) ω} {requests : Mpsc (List UInt8) ω}
    {bytes : Mpsc (Item κ) ω} {decoded : Mpsc (Except (Status κ) μ) ω}
    (htyped : Mpsc.channel n = some typed) (hrequests : Mpsc.channel n' = some requests)
    (hbytes : Mpsc.channel m = some bytes) (hdecoded : Mpsc.channel m' = some decoded)
    {encodes : List (Relay.Op (Except (Status κ) μ) (List UInt8) ω)}
    {r : Relay (Except (Status κ) μ) (List UInt8) ω}
    {encoding : List (Relay.Answers (Except (Status κ) μ) (List UInt8))}
    (hencode : Machine.run (Relay.step encodeRequests) (.spawn typed requests) encodes =
      some (r, encoding))
    {call : StreamingCall} {router : Router} {ops : List (StreamingRpc.Op ω)} {s : StreamingRpc κ ω}
    {answers : List (ServerStream.Output κ)} (hpath : FitsString call.path)
    (hfits : ∀ payload ∈ StreamingRpc.sentBy call ops, payload.length < 2 ^ 32)
    (hnumbers : (StreamingRpc.sentBy call ops).length + 1 < 2 ^ 64)
    (hrpc : Machine.run (StreamingRpc.step call router) (StreamingRpc.start call) ops = some (s, answers))
    (hsent : StreamingRpc.sentBy call ops <+: received (Relay.outputs encoding)) {i : Nat}
    {decodes : List (Relay.Op (Item κ) (Except (Status κ) μ) ω)}
    {r' : Relay (Item κ) (Except (Status κ) μ) ω}
    {decoding : List (Relay.Answers (Item κ) (Except (Status κ) μ))}
    (hdecode : Machine.run (Relay.step decodeItems) (.spawn bytes decoded) decodes = some (r', decoding))
    (hread : received (Relay.inputs decoding) <+: ServerStream.readFrom i answers) :
    received (Relay.outputs decoding) <+: (messages (received (Relay.inputs encoding))).map .ok := by
  obtain ⟨_, _, hrun, -, hencoded, -⟩ := Relay.run_relayed htyped hrequests encodeRequests encodes
  cases hencode.symm.trans hrun
  obtain ⟨_, _, hrun', -, hdecoded, -⟩ := Relay.run_relayed hbytes hdecoded decodeItems decodes
  cases hdecode.symm.trans hrun'
  rw [relayed_encodeRequests] at hencoded
  have hdelivered := (StreamingRpc.run_streamed hpath hfits hnumbers hrpc).inOrder i
  have hpayloads : received (Relay.inputs decoding) <+:
      ((messages (received (Relay.inputs encoding))).map ProstMessage.encodeToVec).map .ok :=
    hread.trans (hdelivered.trans ((hsent.trans hencoded).map Except.ok))
  calc received (Relay.outputs decoding)
      <+: decodeItems.relayed (received (Relay.inputs decoding)) := hdecoded
    _ <+: decodeItems.relayed (((messages
      (received (Relay.inputs encoding))).map ProstMessage.encodeToVec).map .ok) :=
      Relaying.relayed_prefix hpayloads
    _ = (messages (received (Relay.inputs encoding))).map .ok := relayed_decodeItems _

end

namespace Relay

/-- The first message is read. -/
def sevenDecoded : List (Op (Item GrpcCode) (Except (Status GrpcCode) UInt8) Nat) :=
  [.input (.trySend 0 (.ok [7])), .advance 1, .advance 1, .output (.recv 2)]

end Relay

theorem received_typed_seven : ∃ (r : Relay (Except (Status GrpcCode) UInt8) (List UInt8) Nat)
      (encoding : List (Relay.Answers (Except (Status GrpcCode) UInt8) (List UInt8)))
      (r' : Relay (Item GrpcCode) (Except (Status GrpcCode) UInt8) Nat)
      (decoding : List (Relay.Answers (Item GrpcCode) (Except (Status GrpcCode) UInt8))),
    Machine.run (Relay.step encodeRequests) (.spawn ⟨.new 16, Table.empty.insert (), .empty⟩ ⟨.new 16,
      Table.empty.insert (), .empty⟩)
      Relay.sevenEncoded = some (r, encoding) ∧
    Machine.run (Relay.step decodeItems) (.spawn ⟨.new 16, Table.empty.insert (), .empty⟩ ⟨.new 16,
      Table.empty.insert (), .empty⟩)
      Relay.sevenDecoded = some (r', decoding) ∧
    received (Relay.outputs decoding) = [.ok 7] ∧
      received (Relay.outputs decoding) <+: (messages (received (Relay.inputs encoding))).map .ok := by
  obtain ⟨r, encoding, hencode, -⟩ := Relay.run_relayed (n := 16) (m := 16) (ω := Nat) rfl rfl
    (encodeRequests (κ := GrpcCode) (μ := UInt8)) Relay.sevenEncoded
  obtain ⟨r', decoding, hdecode, -⟩ := Relay.run_relayed (n := 16) (m := 16) (ω := Nat) rfl rfl
    (decodeItems (κ := GrpcCode) (μ := UInt8)) Relay.sevenDecoded
  have hrpc : (Machine.run (StreamingRpc.step (StreamingRpc.callOf .bidi) (StreamingRpc.routerFor .bidi))
      (StreamingRpc.start (StreamingRpc.callOf .bidi) : StreamingRpc GrpcCode Nat)
      [.forward [7], .deliver 0, .deliver 1, .next 0 0]).map (fun x => ServerStream.readFrom 0 x.2) =
        some [.ok [7]] := by
    decide +kernel
  obtain ⟨⟨s, answers⟩, hrpc, hread⟩ := Option.map_eq_some_iff.mp hrpc
  have hsent : received (Relay.outputs encoding) = [[7]] := by
    cases hencode
    decide
  have hdecoded : received (Relay.inputs decoding) = [.ok [7]] ∧
      received (Relay.outputs decoding) = [.ok 7] := by
    cases hdecode
    decide
  have hchannel : ∀ τ : Type, Mpsc.channel 16 = some
    (⟨.new 16, Table.empty.insert (), .empty⟩ : Mpsc τ Nat) := fun _ => rfl
  have hread : received (Relay.inputs decoding) <+: ServerStream.readFrom 0 answers :=
    hdecoded.1 ▸ hread ▸ List.prefix_rfl
  refine ⟨r, encoding, r', decoding, hencode, hdecode, hdecoded.2, ?_⟩
  exact received_typed (hchannel _) (hchannel _) (hchannel _) (hchannel _) hencode (by decide)
    (by decide) (by decide) hrpc
    (hsent ▸ List.prefix_rfl) hdecode hread

end Tonic

end DesCartes
