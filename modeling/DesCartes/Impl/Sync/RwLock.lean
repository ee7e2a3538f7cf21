import DesCartes.Impl.Sync.BatchSemaphore

/-!
# The reader-writer lock (`des-tokio/src/sync/rwlock.rs`)

An `RwLock` is a semaphore of which a reader takes one permit and a writer takes all. The futures of
`read` and `write` and the guards go by the handles of the future of `acquire_many` and of the permit
that they own; a guard is alive as long as its permit.
-/

namespace DesCartes

open BatchSemaphore (Semaphore)

/-- `MAX_READS`. -/
def RwLock.maxReads : Nat := (2 ^ 32 - 1) >>> 3

inductive RwLock.Mode where
  | read
  | write
deriving DecidableEq

/-- `RwLock`, and what is alive of it. -/
structure RwLock (ω : Type) where
  maxReaders : Nat
  sem : Semaphore ω
  /-- Which method a future is of. -/
  futures : Nat → RwLock.Mode
  /-- Which kind a guard is of. -/
  guards : Nat → RwLock.Mode

namespace RwLock

/-- An operation on a lock. -/
inductive Op (ω : Type) where
  | read
  | write
  /-- A future of `read` or `write` is polled. -/
  | poll (future : Nat) (task : Option AsyncRuntime.TaskId) (waker : ω)
  | dropFuture (future : Nat)
  | tryRead
  | tryWrite
  | dropGuard (guard : Nat)
deriving DecidableEq

variable {ω : Type}

/-- `RwLock::new`. -/
def new : RwLock ω := ⟨maxReads, .new maxReads, fun _ => .read, fun _ => .read⟩

/-- The permits that a guard of the kind `mode` takes. -/
def permits (l : RwLock ω) : Mode → Nat
  | .read => 1
  | .write => l.maxReaders

/-- The guard `j`, if it is alive. -/
def guard? (l : RwLock ω) (j : Nat) : Option Mode := (l.sem.permits.get j).map fun _ => l.guards j

/-- The read guards that are alive. -/
def readGuards (l : RwLock ω) : Finset Nat := (Finset.range l.sem.permits.next).filter fun j => l.guard? j = some .read

/-- `RwLock::read` and `RwLock::write`. -/
def lock (l : RwLock ω) (mode : Mode) : Option (RwLock ω × BatchSemaphore.Answer ω) :=
  (l.sem.step (.acquireMany (l.permits mode))).map fun (sem, answer) =>
    ({ l with sem, futures := Function.update l.futures l.sem.acquires.next mode }, answer)

/-- A poll of the future `i` of `read` or `write`. It panics when the semaphore is closed. -/
def poll (l : RwLock ω) (i : Nat) (task : Option AsyncRuntime.TaskId) (waker : ω) :
    Option (RwLock ω × BatchSemaphore.Answer ω) :=
  (l.sem.step (.poll i task waker)).bind fun (sem, answer) =>
    match answer with
    | .polled (.ready (.ok j)) _ => some ({ l with sem, guards := Function.update l.guards j (l.futures i) }, answer)
    | .polled (.ready (.error _)) _ => none
    | _ => some ({ l with sem }, answer)

/-- `RwLock::try_read` and `RwLock::try_write`. -/
def tryLock (l : RwLock ω) (mode : Mode) : Option (RwLock ω × BatchSemaphore.Answer ω) :=
  (l.sem.step (.tryAcquireMany (l.permits mode))).map fun (sem, answer) =>
    match answer with
    | .tried (.ok j) => ({ l with sem, guards := Function.update l.guards j mode }, answer)
    | _ => ({ l with sem }, answer)

/-- One operation; none where it panics. -/
def step (l : RwLock ω) : Op ω → Option (RwLock ω × BatchSemaphore.Answer ω)
  | .read => l.lock .read
  | .write => l.lock .write
  | .poll i task waker => l.poll i task waker
  | .dropFuture i => (l.sem.step (.dropAcquire i)).map fun (sem, answer) => ({ l with sem }, answer)
  | .tryRead => l.tryLock .read
  | .tryWrite => l.tryLock .write
  | .dropGuard j => (l.sem.step (.dropPermit j)).map fun (sem, answer) => ({ l with sem }, answer)

end RwLock

end DesCartes
