import DesCartes.Framework.BTreeMap
import DesCartes.Framework.Machine
import DesCartes.Framework.Table

/-!
# The channel (`des-tokio/src/sync/mpsc.rs`)

`State` is what the lock inside a channel guards. A `Channel` is the state together with what is alive of
it: the `Sender`s and the futures of `send`; the one `Receiver` is alive as long as `receiver_alive`.

`SendFuture::poll` takes the lock several times. An operation is what is done in one of these lock
sections, so that a list of operations may interleave the sections of one poll with everything else;
`call` performs a poll without interruption, as a thread does that nothing runs beside.

Of each future of `send` its value, the waker of its last poll and whether that has been woken since are
kept; these are not part of the program.
-/

namespace DesCartes

namespace Mpsc

inductive TrySendError where
  | full
  | closed
deriving DecidableEq

inductive TryRecvError where
  | empty
  | closed
deriving DecidableEq

/-- `State`. The order of the `HashMap` is not specified; nothing depends on it. -/
structure State (τ ω : Type) where
  capacity : Nat
  queue : List τ
  receiverAlive : Bool
  senderCount : Nat
  receiverWaker : Option ω
  nextWaiterId : Nat
  sendWaitOrder : List Nat
  sendWaiters : BTreeMap Nat ω

/-- `SendFuture`. -/
structure SendFuture (τ : Type) where
  value : Option τ
  waiterId : Option Nat
deriving DecidableEq

/-- Where a poll of a future of `send` stands when it is about to take the lock. -/
inductive Stage (τ : Type) where
  | check
  /-- The queue was full: the future's id goes to the wait order. -/
  | register
  /-- The waker goes to the waiters, under the id. -/
  | insert (id : Nat)
  /-- There was a free slot, and the value has been taken out of the future. -/
  | enqueue (value : τ)
  /-- The result is known, and the `SendFuture` is dropped. -/
  | drop (result : Except τ Unit)

/-- How a lock section ends. -/
inductive Outcome (τ : Type) where
  | continues (stage : Stage τ)
  | returns (result : Poll (Except τ Unit))

/-- A future of `Sender::send`. -/
structure Send (τ ω : Type) where
  future : SendFuture τ
  /-- The poll that is under way, with its waker. -/
  polling : Option (Stage τ × ω)
  /-- The value that `send` was called with. -/
  sent : τ
  /-- The waker of its last poll. -/
  waker : Option ω
  /-- Whether that has been woken since. -/
  woken : Bool

/-- An operation on a channel. -/
inductive Op (τ ω : Type) where
  | clone (sender : Nat)
  | dropSender (sender : Nat)
  | send (sender : Nat) (value : τ)
  | trySend (sender : Nat) (value : τ)
  /-- A poll of a future of `send` begins. -/
  | poll (send : Nat) (waker : ω)
  /-- The poll of a future of `send` that is under way goes on. -/
  | resume (send : Nat)
  /-- A future of `send` is dropped before it is done. -/
  | dropSend (send : Nat)
  /-- `RecvFuture::poll`, and `Receiver::poll_next`. -/
  | recv (waker : ω)
  | tryRecv
  | dropReceiver
  /-- Something else wakes a waker. -/
  | wake (waker : ω)

/-- What an operation returns. -/
inductive Answer (τ : Type) where
  | done
  /-- A poll of a future of `send`, of the value. -/
  | polled (send : Nat) (value : τ) (result : Poll (Except τ Unit))
  /-- A future of `send` was dropped. -/
  | dropped (send : Nat)
  | tried (value : τ) (result : Except TrySendError Unit)
  | received (result : Poll (Option τ))
  | triedRecv (result : Except TryRecvError τ)

namespace State

variable {τ ω : Type}

/-- `State::new`. -/
def new (capacity : Nat) : State τ ω := ⟨capacity, [], true, 1, none, 0, [], .empty⟩

/-- `State::wake_receiver`, and the wakers that are woken. -/
def wakeReceiver (s : State τ ω) : State τ ω × List ω := ({ s with receiverWaker := none }, s.receiverWaker.toList)

/-- The loop of `wake_one_sender`. -/
def popWaiter (waiters : BTreeMap Nat ω) : List Nat → List Nat × BTreeMap Nat ω × List ω
  | [] => ([], waiters, [])
  | id :: order =>
    match waiters.get? id with
    | some waker => (order, waiters.erase id, [waker])
    | none => popWaiter waiters order

/-- `State::wake_one_sender`. -/
def wakeOneSender (s : State τ ω) : State τ ω × List ω :=
  let (sendWaitOrder, sendWaiters, woken) := popWaiter s.sendWaiters s.sendWaitOrder
  ({ s with sendWaitOrder, sendWaiters }, woken)

/-- The first loop of `wake_all_senders`. -/
def drainWaiters (waiters : BTreeMap Nat ω) : List Nat → BTreeMap Nat ω × List ω
  | [] => (waiters, [])
  | id :: order =>
    match waiters.get? id with
    | some waker =>
      let (waiters, woken) := drainWaiters (waiters.erase id) order
      (waiters, waker :: woken)
    | none => drainWaiters waiters order

/-- `State::wake_all_senders`. -/
def wakeAllSenders (s : State τ ω) : State τ ω × List ω :=
  let (waiters, woken) := drainWaiters s.sendWaiters s.sendWaitOrder
  ({ s with sendWaitOrder := [], sendWaiters := .empty }, woken ++ waiters.entries.map (·.2))

/-- `Sender::try_send`. -/
def trySend (s : State τ ω) (value : τ) : State τ ω × List ω × Except TrySendError Unit :=
  if s.receiverAlive = false then (s, [], .error .closed)
  else if s.capacity ≤ s.queue.length then (s, [], .error .full)
  else
    let (s, woken) := { s with queue := s.queue ++ [value] }.wakeReceiver
    (s, woken, .ok ())

/-- `Clone for Sender`. -/
def cloneSender (s : State τ ω) : State τ ω := { s with senderCount := s.senderCount + 1 }

/-- `Drop for Sender`. -/
def dropSender (s : State τ ω) : State τ ω × List ω :=
  let s := { s with senderCount := s.senderCount - 1 }
  if s.senderCount = 0 then s.wakeReceiver else (s, [])

/-- `RecvFuture::poll` and `Receiver::poll_next`. -/
def recv (s : State τ ω) (waker : ω) : State τ ω × List ω × Poll (Option τ) :=
  match s.queue with
  | value :: queue =>
    let (s, woken) := { s with queue }.wakeOneSender
    (s, woken, .ready (some value))
  | [] =>
    if s.senderCount = 0 then (s, [], .ready none)
    else ({ s with receiverWaker := some waker }, [], .pending)

/-- `Receiver::try_recv`. -/
def tryRecv (s : State τ ω) : State τ ω × List ω × Except TryRecvError τ :=
  match s.queue with
  | value :: queue =>
    let (s, woken) := { s with queue }.wakeOneSender
    (s, woken, .ok value)
  | [] => if s.senderCount = 0 then (s, [], .error .closed) else (s, [], .error .empty)

/-- `Drop for Receiver`. -/
def dropReceiver (s : State τ ω) : State τ ω × List ω :=
  { s with receiverAlive := false, receiverWaker := none }.wakeAllSenders

end State

namespace SendFuture

variable {τ ω : Type}

/-- `Drop for SendFuture`. -/
def drop (f : SendFuture τ) (s : State τ ω) : State τ ω :=
  match f.waiterId with
  | some id => { s with sendWaiters := s.sendWaiters.erase id }
  | none => s

/-- The value is taken to be given back; a panic when it is not there. -/
def giveBack (f : SendFuture τ) (s : State τ ω) : Option (State τ ω × SendFuture τ × List ω × Outcome τ) :=
  f.value.map fun value => (s, { f with value := none }, [], .continues (.drop (.error value)))

/-- One lock section of `SendFuture::poll`, and of the drop when it is done: the state and the future
afterwards, the wakers that are woken, and how it ends. -/
def lockSection (f : SendFuture τ) (s : State τ ω) (waker : ω) :
    Stage τ → Option (State τ ω × SendFuture τ × List ω × Outcome τ)
  | .check =>
    if s.receiverAlive = false then f.giveBack s
    else if s.capacity ≤ s.queue.length then some (s, f, [], .continues .register)
    else f.value.map fun value => (s, { f with value := none }, [], .continues (.enqueue value))
  | .register =>
    match f.waiterId with
    | none =>
      let id := s.nextWaiterId
      some ({ s with nextWaiterId := id + 1, sendWaitOrder := s.sendWaitOrder ++ [id] },
        { f with waiterId := some id }, [], .continues (.insert id))
    | some id => some ({ s with sendWaitOrder := s.sendWaitOrder ++ [id] }, f, [], .continues (.insert id))
  | .insert id =>
    if s.receiverAlive = false then f.giveBack s
    else some ({ s with sendWaiters := s.sendWaiters.insert id waker }, f, [], .returns .pending)
  | .enqueue value =>
    if s.receiverAlive = false then some (s, f, [], .continues (.drop (.error value)))
    -- the race is lost
    else if s.capacity ≤ s.queue.length then some (s, { f with value := some value }, [], .continues .register)
    else
      let (s, woken) := { s with queue := s.queue ++ [value] }.wakeReceiver
      -- no section since the poll began has changed the id, so it is `current_waiter_id`; without one the
      -- drop does not take the lock
      some (f.drop s, { f with waiterId := none }, woken, .returns (.ready (.ok ())))
  | .drop result => some (f.drop s, { f with waiterId := none }, [], .returns (.ready result))

/-- The lock sections from a stage on, `n` at most, with nothing between them. -/
def pollFrom (waker : ω) : Nat → SendFuture τ → State τ ω → Stage τ → Option (State τ ω × SendFuture τ × List ω × Poll (Except τ Unit))
  | 0, _, _, _ => none
  | n + 1, f, s, stage => (f.lockSection s waker stage).bind fun (s, f, woken, outcome) =>
    match outcome with
    | .continues stage => (pollFrom waker n f s stage).map fun (s, f, woken', result) => (s, f, woken ++ woken', result)
    | .returns result => some (s, f, woken, result)

/-- `SendFuture::poll`, and the drop when it is done, which nothing interrupts. -/
def poll (f : SendFuture τ) (s : State τ ω) (waker : ω) : Option (State τ ω × SendFuture τ × List ω × Poll (Except τ Unit)) :=
  f.pollFrom waker 4 s .check

end SendFuture

end Mpsc

/-- A channel and what is alive of it. -/
structure Mpsc (τ ω : Type) where
  state : Mpsc.State τ ω
  senders : Table Unit
  sends : Table (Mpsc.Send τ ω)

namespace Mpsc

variable {τ ω : Type} [DecidableEq ω]

/-- `channel`. -/
def channel (capacity : Nat) : Option (Mpsc τ ω) :=
  if capacity = 0 then none else some ⟨.new capacity, Table.empty.insert (), .empty⟩

/-- `Waker::wake`, of each of the wakers. -/
def wake (c : Mpsc τ ω) (wakers : List ω) : Mpsc τ ω :=
  { c with sends := c.sends.map fun p => if ∃ w ∈ wakers, p.waker = some w then { p with woken := true } else p }

/-- The poll of the future `i` performs the lock section that it stands at. -/
def advance (c : Mpsc τ ω) (i : Nat) (p : Send τ ω) (stage : Stage τ) (waker : ω) : Option (Mpsc τ ω × Answer τ) :=
  (p.future.lockSection c.state waker stage).map fun (state, future, woken, outcome) =>
    match outcome with
    | .continues stage =>
      (wake { c with state, sends := c.sends.set i { p with future, polling := some (stage, waker) } } woken, .done)
    | .returns .pending =>
      (wake { c with state, sends := c.sends.set i { p with future, polling := none } } woken, .polled i p.sent .pending)
    | .returns (.ready result) =>
      (wake { c with state, sends := c.sends.erase i } woken, .polled i p.sent (.ready result))

/-- The first lock section of a poll of the future `i`. -/
def poll (c : Mpsc τ ω) (i : Nat) (waker : ω) : Option (Mpsc τ ω × Answer τ) :=
  match c.sends.get i with
  | none => some (c, .done)
  | some p =>
    match p.polling with
    | some _ => some (c, .done)
    | none => c.advance i { p with waker := some waker, woken := false } .check waker

/-- The next lock section of the poll of the future `i` that is under way. -/
def resume (c : Mpsc τ ω) (i : Nat) : Option (Mpsc τ ω × Answer τ) :=
  match c.sends.get i with
  | none => some (c, .done)
  | some p =>
    match p.polling with
    | some (stage, waker) => c.advance i p stage waker
    | none => some (c, .done)

/-- The future `i` is dropped; not while it is being polled. -/
def dropSend (c : Mpsc τ ω) (i : Nat) : Mpsc τ ω × Answer τ :=
  match c.sends.get i with
  | none => (c, .done)
  | some p =>
    match p.polling with
    | some _ => (c, .done)
    | none => ({ c with state := p.future.drop c.state, sends := c.sends.erase i }, .dropped i)

/-- `f`, if the sender `a` is alive. -/
def ofSender (c : Mpsc τ ω) (a : Nat) (f : Mpsc τ ω × Answer τ) : Mpsc τ ω × Answer τ :=
  match c.senders.get a with
  | none => (c, .done)
  | some _ => f

/-- `f`, if the receiver is alive. -/
def ofReceiver (c : Mpsc τ ω) (f : Mpsc τ ω × Answer τ) : Mpsc τ ω × Answer τ :=
  if c.state.receiverAlive then f else (c, .done)

/-- One operation; none where it panics. -/
def step (c : Mpsc τ ω) : Op τ ω → Option (Mpsc τ ω × Answer τ)
  | .clone a => some <| c.ofSender a ({ c with state := c.state.cloneSender, senders := c.senders.insert () }, .done)
  | .dropSender a => some <| c.ofSender a <|
      let (state, woken) := c.state.dropSender
      (wake { c with state, senders := c.senders.erase a } woken, .done)
  | .send a value => some <| c.ofSender a
      ({ c with sends := c.sends.insert ⟨⟨some value, none⟩, none, value, none, false⟩ }, .done)
  | .trySend a value => some <| c.ofSender a <|
      let (state, woken, result) := c.state.trySend value
      (wake { c with state } woken, .tried value result)
  | .poll i waker => c.poll i waker
  | .resume i => c.resume i
  | .dropSend i => some (c.dropSend i)
  | .recv waker => some <| c.ofReceiver <|
      let (state, woken, result) := c.state.recv waker
      (wake { c with state } woken, .received result)
  | .tryRecv => some <| c.ofReceiver <|
      let (state, woken, result) := c.state.tryRecv
      (wake { c with state } woken, .triedRecv result)
  | .dropReceiver => some <| c.ofReceiver <|
      let (state, woken) := c.state.dropReceiver
      (wake { c with state } woken, .done)
  | .wake waker => some (wake c [waker], .done)

/-- The lock sections of an operation: a poll has five at most. -/
def Op.sections : Op τ ω → List (Op τ ω)
  | .poll i waker => [.poll i waker, .resume i, .resume i, .resume i, .resume i]
  | op => [op]

/-- An operation that nothing interrupts. -/
def call (c : Mpsc τ ω) (op : Op τ ω) : Option (Mpsc τ ω × List (Answer τ)) := Machine.run step c op.sections

end Mpsc

end DesCartes
