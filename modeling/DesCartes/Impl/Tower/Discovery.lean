import DesCartes.Impl.Sync.Notify
import DesCartes.Impl.Tower.Basic
import DesCartes.Impl.Transport.EndpointRegistry

/-!
# Service discovery (`des-tower/src/tower/discovery/mod.rs`)

A `SharedEndpointRegistry`, with the futures of `wait_for_endpoint` that are alive. A waker can be
woken by something else, as by the timer of a timeout.
-/

namespace DesCartes.Tower

open AsyncRuntime (SimSleep)
open Transport (EndpointId EndpointInfo SimEndpointRegistry)

namespace Discovery

/-- Where a `wait_for_endpoint` is: before its first poll, or at `changed`, with the deadline and
the sleep of its timeout, if there is one, and its `Notified`. -/
inductive Stage where
  | start (timeout : Option Nat)
  | changed (timeout : Option (SimTime × SimSleep)) (notified : Nat)
deriving DecidableEq

/-- A future of `wait_for_endpoint`. -/
structure Wait where
  serviceName : List Char
  stage : Stage
deriving DecidableEq

/-- An operation. -/
inductive Op (ω : Type) where
  | registerEndpoint (endpoint : EndpointInfo)
  | unregisterEndpoint (endpointId : EndpointId)
  | getEndpointForService (serviceName : List Char)
  /-- `wait_for_endpoint`; the timeout is a number of nanoseconds. -/
  | waitForEndpoint (serviceName : List Char) (timeout : Option Nat)
  | poll (wait : Nat) (waker : ω) (now : SimTime)
  /-- A future is dropped. -/
  | drop (wait : Nat)
  /-- Something else wakes a waker. -/
  | wake (waker : ω)

/-- What an operation returns. -/
inductive Output where
  | done
  | refused (error : List Char)
  | got (endpoint : Option EndpointInfo)
  | polled (wait : Nat) (result : Poll (Option EndpointInfo))
deriving DecidableEq

end Discovery

/-- `SharedEndpointRegistry`, and the futures. -/
structure Discovery (ω : Type) where
  inner : SimEndpointRegistry
  notify : Notify ω
  waits : Table Discovery.Wait

namespace Discovery

variable {ω : Type}

/-- `SharedEndpointRegistry::new`. -/
def new : Discovery ω := ⟨.new, .new, .empty⟩

variable [DecidableEq ω]

/-- `SharedEndpointRegistry::register_endpoint`. -/
def registerEndpoint (d : Discovery ω) (endpoint : EndpointInfo) : Discovery ω × Output :=
  match d.inner.registerEndpoint endpoint with
  | .ok inner => ({ d with inner, notify := d.notify.notifyWaiters }, .done)
  | .error e => (d, .refused e)

/-- `SharedEndpointRegistry::unregister_endpoint`. -/
def unregisterEndpoint (d : Discovery ω) (endpointId : EndpointId) : Discovery ω × Output :=
  match d.inner.unregisterEndpoint endpointId with
  | .ok inner => ({ d with inner, notify := d.notify.notifyWaiters }, .done)
  | .error e => (d, .refused e)

omit [DecidableEq ω] in
/-- The future `i` is done. -/
def finish (d : Discovery ω) (i : Nat) (endpoint : Option EndpointInfo) : Discovery ω × Poll (Option EndpointInfo) :=
  ({ d with waits := d.waits.erase i }, .ready endpoint)

/-- The timeout of a future whose `Notified`, `j`, is pending. -/
def park (d : Discovery ω) (i : Nat) (serviceName : List Char) (now : SimTime) (timeout : Option (SimTime × SimSleep)) (j : Nat) :
    Discovery ω × Poll (Option EndpointInfo) :=
  match timeout with
  | none => ({ d with waits := d.waits.set i ⟨serviceName, .changed none j⟩ }, .pending)
  | some (deadline, sleep) =>
    match pollSleep sleep now with
    | (.ready (), _) => { d with notify := (d.notify.perform (.dropFuture j)).1 }.finish i none
    | (.pending, sleep) => ({ d with waits := d.waits.set i ⟨serviceName, .changed (some (deadline, sleep)) j⟩ }, .pending)

/-- The loop of `wait_for_endpoint`, `n` rounds of it. Each round but the last takes a permit. -/
def rounds (i : Nat) (serviceName : List Char) (waker : ω) (now : SimTime) (deadline : Option SimTime) :
    Nat → Discovery ω → Discovery ω × Poll (Option EndpointInfo)
  | 0, d => (d, .pending)
  | n + 1, d =>
    match d.inner.getEndpointForService serviceName with
    | (inner, some endpoint) => { d with inner }.finish i (some endpoint)
    | (inner, none) =>
      let d := { d with inner }
      if ∃ t ∈ deadline, t ≤ now then d.finish i none
      else
        let j := d.notify.futures.next
        match (d.notify.perform .notified).1.poll j waker with
        | (notify, .ready ()) => rounds i serviceName waker now deadline n { d with notify }
        | (notify, .pending) =>
          { d with notify }.park i serviceName now (deadline.map fun t => (t, .new (t.durationSince now))) j

/-- A poll of the future `i`. -/
def poll (d : Discovery ω) (i : Nat) (wait : Wait) (waker : ω) (now : SimTime) : Discovery ω × Poll (Option EndpointInfo) :=
  match wait.stage with
  | .start timeout =>
    rounds i wait.serviceName waker now (timeout.map fun duration => now + .fromDuration duration) (d.notify.state.permits + 1) d
  | .changed timeout j =>
    match d.notify.poll j waker with
    | (notify, .ready ()) =>
      rounds i wait.serviceName waker now (timeout.map (·.1)) (notify.state.permits + 1) { d with notify }
    | (notify, .pending) => { d with notify }.park i wait.serviceName now timeout j

/-- A future is dropped. -/
def drop (d : Discovery ω) (i : Nat) (wait : Wait) : Discovery ω :=
  match wait.stage with
  | .start _ => { d with waits := d.waits.erase i }
  | .changed _ j => { d with waits := d.waits.erase i, notify := (d.notify.perform (.dropFuture j)).1 }

/-- One operation; none where it is not possible. -/
def step (d : Discovery ω) : Op ω → Option (Discovery ω × Output)
  | .registerEndpoint endpoint => some (d.registerEndpoint endpoint)
  | .unregisterEndpoint endpointId => some (d.unregisterEndpoint endpointId)
  | .getEndpointForService serviceName =>
    let (inner, endpoint) := d.inner.getEndpointForService serviceName
    some ({ d with inner }, .got endpoint)
  | .waitForEndpoint serviceName timeout =>
    some ({ d with waits := d.waits.insert ⟨serviceName, .start timeout⟩ }, .done)
  | .poll i waker now => (d.waits.get i).map fun wait =>
    let (d, result) := d.poll i wait waker now
    (d, .polled i result)
  | .drop i => (d.waits.get i).map fun wait => (d.drop i wait, .done)
  | .wake waker => some ({ d with notify := d.notify.wake [waker] }, .done)

end Discovery

end DesCartes.Tower
