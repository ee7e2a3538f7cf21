import DesCartes.Framework.Table
import DesCartes.Impl.Time

/-!
# Notifications (`des-tokio/src/sync/notify.rs`)

`State` is what the lock inside a `Notify` guards. A `Notify` is the state together with its
`Notified` futures that are alive. What the program does with it is a list of operations; `step`
performs one of them. None of them panics.

Of each future the waker of its last poll that was pending is kept, and whether that has been woken
since; these two are not part of the program.
-/

namespace DesCartes

namespace Notify

/-- `State`. -/
structure State (ω : Type) where
  permits : Nat
  waiters : List ω
deriving DecidableEq

/-- `Notified`. -/
structure Notified (ω : Type) where
  /-- The waker of its last poll, when that was pending. -/
  waker : Option ω
  /-- Whether that has been woken since. -/
  woken : Bool
deriving DecidableEq

/-- An operation on a `Notify`. -/
inductive Op (ω : Type) where
  | notifyOne
  | notifyWaiters
  | notified
  /-- `Notified::poll`. -/
  | poll (future : Nat) (waker : ω)
  /-- A `Notified` is dropped before it is done. -/
  | dropFuture (future : Nat)
  /-- Something else wakes a waker. -/
  | wake (waker : ω)
deriving DecidableEq

end Notify

/-- `Notify`, and its futures that are alive. -/
structure Notify (ω : Type) where
  state : Notify.State ω
  futures : Table (Notify.Notified ω)

namespace Notify

variable {ω : Type} [DecidableEq ω]

omit [DecidableEq ω] in
/-- `Notify::new`. -/
def new : Notify ω := ⟨⟨0, []⟩, .empty⟩

/-- `Waker::wake`, of each of the wakers. -/
def wake (n : Notify ω) (wakers : List ω) : Notify ω :=
  { n with futures := n.futures.map fun f => if ∃ w ∈ wakers, f.waker = some w then { f with woken := true } else f }

/-- `Notify::notify_one`. -/
def notifyOne (n : Notify ω) : Notify ω :=
  let permits := min (n.state.permits + 1) u64Max
  match n.state.waiters with
  | [] => { n with state := { n.state with permits } }
  | waker :: waiters => wake { n with state := ⟨permits, waiters⟩ } [waker]

/-- `Notify::notify_waiters`. -/
def notifyWaiters (n : Notify ω) : Notify ω :=
  wake { n with state := ⟨min (n.state.permits + n.state.waiters.length) u64Max, []⟩ } n.state.waiters

/-- `Notified::poll`, of the future `i`. A future that is done is gone. -/
def poll (n : Notify ω) (i : Nat) (waker : ω) : Notify ω × Poll Unit :=
  if n.state.permits > 0 then
    (⟨{ n.state with permits := n.state.permits - 1 }, n.futures.erase i⟩, .ready ())
  else (⟨{ n.state with waiters := n.state.waiters ++ [waker] }, n.futures.set i ⟨some waker, false⟩⟩, .pending)

/-- One operation, and what a poll returns. -/
def perform (n : Notify ω) : Op ω → Notify ω × Option (Poll Unit)
  | .notifyOne => (n.notifyOne, none)
  | .notifyWaiters => (n.notifyWaiters, none)
  | .notified => ({ n with futures := n.futures.insert ⟨none, false⟩ }, none)
  | .poll i waker =>
    match n.futures.get i with
    | none => (n, none)
    | some _ =>
      let (n, result) := n.poll i waker
      (n, some result)
  | .dropFuture i => ({ n with futures := n.futures.erase i }, none)
  | .wake waker => (n.wake [waker], none)

/-- `perform`, as a step of a machine. -/
def step (n : Notify ω) (op : Op ω) : Option (Notify ω × Option (Poll Unit)) := some (n.perform op)

end Notify

end DesCartes
