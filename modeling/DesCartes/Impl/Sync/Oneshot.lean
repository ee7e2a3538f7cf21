import DesCartes.Framework.Table

/-!
# A channel for one value (`des-tokio/src/sync/oneshot.rs`)

`State` is what the lock inside a channel guards. Next to what an operation returns are the wakers
that it wakes.
-/

namespace DesCartes.Oneshot

/-- `State`. -/
structure State (τ ω : Type) where
  value : Option τ
  waker : Option ω
  senderAlive : Bool
  receiverAlive : Bool

namespace State

variable {τ ω : Type}

/-- `State::new`. -/
def new : State τ ω := ⟨none, none, true, true⟩

/-- `Drop for Sender`. -/
def dropSender (s : State τ ω) : State τ ω × List ω := ({ s with waker := none, senderAlive := false }, s.waker.toList)

/-- `Sender::send`, which takes the sender. -/
def send (s : State τ ω) (value : τ) : State τ ω × List ω × Except τ Unit :=
  if s.receiverAlive = false then
    let (s, woken) := s.dropSender
    (s, woken, .error value)
  else ({ s with value := some value, waker := none, senderAlive := false }, s.waker.toList, .ok ())

/-- `Receiver::poll`; an error is a `RecvError`. -/
def poll (s : State τ ω) (waker : ω) : State τ ω × Poll (Except Unit τ) :=
  match s.value with
  | some value => ({ s with value := none }, .ready (.ok value))
  | none => if s.senderAlive = false then (s, .ready (.error ())) else ({ s with waker := some waker }, .pending)

/-- `Drop for Receiver`. -/
def dropReceiver (s : State τ ω) : State τ ω := { s with waker := none, receiverAlive := false }

end State

end DesCartes.Oneshot
