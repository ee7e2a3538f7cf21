import DesCartes.Framework.BTreeMap
import DesCartes.Framework.Table
import DesCartes.Impl.Time

/-!
# The watch channel (`des-tokio/src/sync/watch.rs`)

`State` is what the lock inside a channel guards. A `Watch` is the state together with what is alive
of it, the `Sender`s and the `Receiver`s. What the program does with it is a list of operations;
`step` performs one of them. None of them panics.

A future of `changed` borrows its receiver, so a receiver has one at most. Its waker, when its last
poll was pending, and whether the channel has woken that since are kept with the receiver; these two
are not part of the program. `wait_for` is `borrow_and_update` and `changed` in a loop.
-/

namespace DesCartes

namespace Watch

/-- `RecvError`. -/
structure RecvError where
deriving DecidableEq

/-- `State`. The order of the `HashMap`s is not specified; nothing depends on it. -/
structure State (τ ω : Type) where
  senderAlive : Bool
  version : Nat
  value : τ
  nextReceiverId : Nat
  receiverAlive : BTreeMap Nat Bool
  receiverWakers : BTreeMap Nat ω
  receiverOrder : List Nat

/-- `Receiver`. -/
structure Receiver (ω : Type) where
  id : Nat
  seenVersion : Nat
  /-- The waker of the last poll of its future of `changed`, when that was pending. -/
  pending : Option ω
  /-- Whether the channel has woken that since. -/
  woken : Bool
deriving DecidableEq

/-- An operation on a channel. -/
inductive Op (τ ω : Type) where
  | cloneSender (sender : Nat)
  | dropSender (sender : Nat)
  | send (sender : Nat) (value : τ)
  | sendReplace (sender : Nat) (value : τ)
  /-- What `modify` makes of the value, and what it returns. -/
  | sendIfModified (sender : Nat) (modify : τ → τ × Bool)
  | senderBorrow (sender : Nat)
  | subscribe (sender : Nat)
  | cloneReceiver (receiver : Nat)
  | dropReceiver (receiver : Nat)
  | borrow (receiver : Nat)
  | borrowAndUpdate (receiver : Nat)
  | hasChanged (receiver : Nat)
  /-- `Changed::poll`, of the receiver's future of `changed`. -/
  | pollChanged (receiver : Nat) (waker : ω)
  /-- The receiver's future of `changed` is dropped. -/
  | dropChanged (receiver : Nat)

/-- What an operation returns. -/
inductive Answer (τ : Type) where
  | done
  /-- `send` of the value. -/
  | sent (value : τ) (result : Except τ Unit)
  /-- `send_replace` of the value, which returns the old one. -/
  | replaced (value old : τ)
  /-- `send_if_modified`, and the new value when it returns `true`. -/
  | modified (value : Option τ)
  | borrowed (value : τ)
  | hasChanged (result : Except RecvError Bool)
  /-- A poll of the receiver's future of `changed`, which found the version. -/
  | changed (receiver version : Nat) (result : Poll (Except RecvError Unit))

/-- The value that an update has set. -/
def Answer.updated {τ : Type} : Answer τ → Option τ
  | .sent value (.ok ()) => some value
  | .replaced value _ => some value
  | .modified value => value
  | _ => none

namespace State

variable {τ ω : Type}

/-- The loop of `wake_all`: the wakers that are left, and those that are woken. -/
def wakeReceivers (alive : BTreeMap Nat Bool) (wakers : BTreeMap Nat ω) : List Nat → BTreeMap Nat ω × List ω
  | [] => (wakers, [])
  | id :: ids =>
    if (alive.get? id).getD false then
      match wakers.get? id with
      | some waker =>
        let (wakers, woken) := wakeReceivers alive (wakers.erase id) ids
        (wakers, waker :: woken)
      | none => wakeReceivers alive wakers ids
    else wakeReceivers alive wakers ids

/-- `State::wake_all`, and the wakers that are woken. -/
def wakeAll (s : State τ ω) : State τ ω × List ω :=
  let (receiverWakers, woken) := wakeReceivers s.receiverAlive s.receiverWakers s.receiverOrder
  ({ s with receiverWakers }, woken)

/-- `State::remove_receiver`. -/
def removeReceiver (s : State τ ω) (id : Nat) : State τ ω :=
  { s with
    receiverAlive := s.receiverAlive.erase id
    receiverWakers := s.receiverWakers.erase id
    receiverOrder := s.receiverOrder.erase id }

/-- `State::add_receiver`; the id is the old `next_receiver_id`. -/
def addReceiver (s : State τ ω) : State τ ω :=
  { s with
    nextReceiverId := s.nextReceiverId + 1
    receiverAlive := s.receiverAlive.insert s.nextReceiverId true
    receiverOrder := s.receiverOrder ++ [s.nextReceiverId] }

/-- The value is replaced, the version goes up, and the receivers are woken. -/
def update (s : State τ ω) (value : τ) : State τ ω × List ω :=
  { s with value, version := min (s.version + 1) u64Max }.wakeAll

/-- `Sender::send`. -/
def send (s : State τ ω) (value : τ) : State τ ω × List ω × Except τ Unit :=
  if s.senderAlive = false then (s, [], .error value)
  else
    let (s, woken) := s.update value
    (s, woken, .ok ())

/-- `Sender::send_replace`. -/
def sendReplace (s : State τ ω) (value : τ) : State τ ω × List ω × τ :=
  let old := s.value
  let (s, woken) := s.update value
  (s, woken, old)

/-- `Sender::send_if_modified`, and the new value if there is one. -/
def sendIfModified (s : State τ ω) (modify : τ → τ × Bool) : State τ ω × List ω × Option τ :=
  let (value, modified) := modify s.value
  if modified then
    let (s, woken) := s.update value
    (s, woken, some value)
  else (s, [], none)

/-- `Drop for Sender`. -/
def dropSender (s : State τ ω) : State τ ω × List ω :=
  if s.senderAlive = false then (s, []) else { s with senderAlive := false }.wakeAll

/-- `Receiver::has_changed`. -/
def hasChanged (s : State τ ω) (seenVersion : Nat) : Except RecvError Bool :=
  if s.version ≠ seenVersion then .ok true
  else if s.senderAlive = false then .error ⟨⟩
  else .ok false

/-- `Receiver::poll_changed`, of the receiver `r`. -/
def pollChanged (s : State τ ω) (r : Receiver ω) (waker : ω) :
    State τ ω × Receiver ω × Poll (Except RecvError Unit) :=
  if s.version ≠ r.seenVersion then (s, { r with seenVersion := s.version }, .ready (.ok ()))
  else if s.senderAlive = false then (s, r, .ready (.error ⟨⟩))
  else ({ s with receiverWakers := s.receiverWakers.insert r.id waker }, r, .pending)

end State

end Watch

/-- A channel and what is alive of it. -/
structure Watch (τ ω : Type) where
  state : Watch.State τ ω
  senders : Table Unit
  receivers : Table (Watch.Receiver ω)

namespace Watch

variable {τ ω : Type}

/-- A new receiver, which has seen the current version. -/
def subscribe (c : Watch τ ω) : Watch τ ω :=
  { c with
    state := c.state.addReceiver
    receivers := c.receivers.insert ⟨c.state.nextReceiverId, c.state.version, none, false⟩ }

/-- `channel`. -/
def channel (value : τ) : Watch τ ω :=
  subscribe ⟨⟨true, 0, value, 0, .empty, .empty, []⟩, Table.empty.insert (), .empty⟩

/-- What `f` does and returns, if the sender `a` is alive. -/
def ofSender (c : Watch τ ω) (a : Nat) (f : Watch τ ω × Answer τ) : Watch τ ω × Answer τ :=
  match c.senders.get a with
  | none => (c, .done)
  | some _ => f

/-- What `f` does and returns for the receiver `i`, if it is alive. -/
def ofReceiver (c : Watch τ ω) (i : Nat) (f : Receiver ω → Watch τ ω × Answer τ) : Watch τ ω × Answer τ :=
  match c.receivers.get i with
  | none => (c, .done)
  | some r => f r

section
variable [DecidableEq ω]

/-- `Waker::wake`, of each of the wakers. -/
def wake (c : Watch τ ω) (wakers : List ω) : Watch τ ω :=
  { c with receivers := c.receivers.map fun r => if ∃ w ∈ wakers, r.pending = some w then { r with woken := true } else r }

/-- The poll of the future of `changed` of the receiver `i`. When it is done the future is gone. -/
def pollChanged (c : Watch τ ω) (i : Nat) (r : Receiver ω) (waker : ω) : Watch τ ω × Answer τ :=
  let (state, r, result) := c.state.pollChanged r waker
  let pending := match result with
    | .pending => some waker
    | .ready _ => none
  ({ c with state, receivers := c.receivers.set i { r with pending, woken := false } }, .changed i c.state.version result)

/-- One operation, and what it returns. -/
def perform (c : Watch τ ω) : Op τ ω → Watch τ ω × Answer τ
  | .cloneSender a => c.ofSender a ({ c with senders := c.senders.insert () }, .done)
  | .dropSender a => c.ofSender a <|
      let (state, woken) := c.state.dropSender
      (wake { c with state, senders := c.senders.erase a } woken, .done)
  | .send a value => c.ofSender a <|
      let (state, woken, result) := c.state.send value
      (wake { c with state } woken, .sent value result)
  | .sendReplace a value => c.ofSender a <|
      let (state, woken, old) := c.state.sendReplace value
      (wake { c with state } woken, .replaced value old)
  | .sendIfModified a modify => c.ofSender a <|
      let (state, woken, value) := c.state.sendIfModified modify
      (wake { c with state } woken, .modified value)
  | .senderBorrow a => c.ofSender a (c, .borrowed c.state.value)
  | .subscribe a => c.ofSender a (c.subscribe, .done)
  | .cloneReceiver i => c.ofReceiver i fun _ => (c.subscribe, .done)
  | .dropReceiver i => c.ofReceiver i fun r =>
      ({ c with state := c.state.removeReceiver r.id, receivers := c.receivers.erase i }, .done)
  | .borrow i => c.ofReceiver i fun _ => (c, .borrowed c.state.value)
  | .borrowAndUpdate i => c.ofReceiver i fun r =>
      ({ c with receivers := c.receivers.set i { r with seenVersion := c.state.version } }, .borrowed c.state.value)
  | .hasChanged i => c.ofReceiver i fun r => (c, .hasChanged (c.state.hasChanged r.seenVersion))
  | .pollChanged i waker => c.ofReceiver i fun r => c.pollChanged i r waker
  | .dropChanged i => c.ofReceiver i fun r =>
      ({ c with receivers := c.receivers.set i { r with pending := none, woken := false } }, .done)

/-- `perform`, as a step of a machine. -/
def step (c : Watch τ ω) (op : Op τ ω) : Option (Watch τ ω × Answer τ) := some (c.perform op)

end

end Watch

end DesCartes
