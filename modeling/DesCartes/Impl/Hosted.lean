import DesCartes.Impl.Session

/-!
# A component in a simulation

A `ComponentCode` is a component that reads the clock of the scheduler it is given and schedules
events: its `process_event`, and the methods that its owner calls between events. A `Hosted`
component is registered in a simulation under a key. All other code of the simulation, its owner
included, is the operations that it makes on the scheduler (`Op`). The events popped are those of
any policy, and an event for the component is processed when it is popped.
-/

namespace DesCartes

/-- A call of `Scheduler::schedule`. -/
structure Send (ε : Type) where
  delay : SimTime
  target : Uuid
  event : ε
deriving DecidableEq

/-- A component; its code is given its key and the time, and gives none where it panics. -/
structure ComponentCode (κ ε μ : Type) where
  processEvent : κ → Uuid → ε → SimTime → Option (κ × List (Send ε))
  /-- A method that the owner calls. -/
  call : κ → Uuid → μ → SimTime → Option (κ × List (Send ε))

/-- The code of the component is called. -/
def ComponentCode.perform {κ ε μ : Type} (code : ComponentCode κ ε μ) (component : κ) (self : Uuid) (input : ε ⊕ μ)
    (now : SimTime) : Option (κ × List (Send ε)) :=
  match input with
  | .inl event => code.processEvent component self event now
  | .inr method => code.call component self method now

/-- The event of an entry that is for the component with the key. -/
def EventEntry.eventFor {ε : Type} (self : Uuid) : EventEntry ε → Option ε
  | .component _ _ key event => if key = self then some event else none
  | .task .. => none

/-- The calls of `Scheduler::schedule` that a component makes; none where the counter of the events
overflows. -/
def Session.sendAll {ε τ ρ : Type} (r : Session ε τ ρ) : List (Send ε) → Option (Session ε τ ρ)
  | [] => some r
  | send :: sends =>
    if r.scheduler.nextEventId < u64Max then
      sendAll { r with scheduler := r.scheduler.schedule send.delay send.target send.event } sends
    else none

/-- A component, and the scheduler of its simulation. -/
structure Hosted (κ ε τ ρ : Type) where
  component : κ
  session : Session ε τ ρ

/-- What the code of a component was called with and when, the component before and after, and the
calls it has made. -/
structure Handled (κ ε μ : Type) where
  before : κ
  input : ε ⊕ μ
  now : SimTime
  after : κ
  sends : List (Send ε)

namespace Hosted

variable {κ ε τ ρ φ μ : Type}

/-- An operation of other code on the scheduler, or a call of a method of the component. -/
inductive Op (ε τ ρ φ μ : Type) where
  | other (op : DesCartes.Op ε τ ρ φ)
  | call (method : μ)

/-- What an operation of other code answers, and what the component has done. -/
structure Answer (κ ε μ : Type) where
  other : Option (DesCartes.Answer ε)
  own : Option (Handled κ ε μ)

/-- The event for the component that was popped, if there is one. -/
def delivered (self : Uuid) (answer : DesCartes.Answer ε) : Option ε := answer.popped?.bind (EventEntry.eventFor self)

/-- The code of the component has returned. -/
def returned (before : κ) (session : Session ε τ ρ) (input : ε ⊕ μ) :
    Option (κ × List (Send ε)) → Option (Hosted κ ε τ ρ × Handled κ ε μ)
  | none => none
  | some (after, sends) =>
    (session.sendAll sends).map fun session' => (⟨after, session'⟩, ⟨before, input, session.scheduler.clock, after, sends⟩)

variable [EventFrontierPolicy φ] (code : ComponentCode κ ε μ) (self : Uuid)

/-- One operation; none where it panics. -/
def step (h : Hosted κ ε τ ρ) : Op ε τ ρ φ μ → Option (Hosted κ ε τ ρ × Answer κ ε μ)
  | .other op =>
    match h.session.step op with
    | none => none
    | some (session, answer) =>
      match delivered self answer with
      | none => some ({ h with session }, ⟨some answer, none⟩)
      | some event =>
        (returned h.component session (.inl event) (code.processEvent h.component self event session.scheduler.clock)).map
          fun (h, handled) => (h, ⟨some answer, some handled⟩)
  | .call method =>
    (returned h.component h.session (.inr method) (code.call h.component self method h.session.scheduler.clock)).map
      fun (h, handled) => (h, ⟨none, some handled⟩)

end Hosted

end DesCartes
