import DesCartes.Impl.Hosted
import Mathlib.Logic.Function.Basic

/-!
# The components of a simulation together (`des-core/src/lib.rs`)

An `Assembly` is the components that are registered in a simulation, by their keys, and its
scheduler. All code of the simulation that is not theirs is the operations that are made on the
scheduler. An event that is popped is given to the component it is for; where there is none, nothing
is done.
-/

namespace DesCartes

/-- The event of an entry that is for a component, and the key of that. -/
def EventEntry.posted {ε : Type} : EventEntry ε → Option (Uuid × ε)
  | .component _ _ key event => some (key, event)
  | .task .. => none

/-- The components of a simulation, and its scheduler. -/
structure Assembly (κ ε τ ρ : Type) where
  components : Uuid → Option κ
  session : Session ε τ ρ

namespace Assembly

variable {κ ε τ ρ φ μ : Type}

/-- What an operation answers, and what a component has done. -/
structure Answer (κ ε μ : Type) where
  other : DesCartes.Answer ε
  own : Option (Uuid × Handled κ ε μ)

/-- `Components::process_event_entry`, of an event for a component; none where the code panics. -/
def processEvent (code : ComponentCode κ ε μ) (a : Assembly κ ε τ ρ) (key : Uuid) (event : ε) :
    Option (Assembly κ ε τ ρ × Option (Uuid × Handled κ ε μ)) :=
  match a.components key with
  | none => some (a, none)
  | some component =>
    (Hosted.returned component a.session (.inl event)
      (code.processEvent component key event a.session.scheduler.clock)).map fun (h, handled) =>
        (⟨Function.update a.components key (some h.component), h.session⟩, some (key, handled))

variable [EventFrontierPolicy φ] (code : ComponentCode κ ε μ)

/-- One operation; none where it panics. -/
def step (a : Assembly κ ε τ ρ) (op : Op ε τ ρ φ) : Option (Assembly κ ε τ ρ × Answer κ ε μ) :=
  match a.session.step op with
  | none => none
  | some (session, other) =>
    match other.popped?.bind EventEntry.posted with
    | none => some ({ a with session }, ⟨other, none⟩)
    | some (key, event) =>
      ({ a with session }.processEvent code key event).map fun (a, own) => (a, ⟨other, own⟩)

end Assembly

end DesCartes
