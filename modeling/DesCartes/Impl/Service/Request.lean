import DesCartes.Framework.HashMap
import DesCartes.Framework.Utf8
import DesCartes.Impl.Ids
import DesCartes.Impl.Time

/-!
# Requests and responses (`des-core/src/request.rs`, `dists.rs`)

A `Vec<u8>` is a list of bytes and a `String` its list of characters.
-/

namespace DesCartes.Service

/-- `RequestId`. -/
structure RequestId where
  id : Nat
deriving DecidableEq

/-- `RequestAttemptId`. -/
structure RequestAttemptId where
  id : Nat
deriving DecidableEq

/-- `AttemptStatus`. -/
inductive AttemptStatus where
  | pending
  | success
  | timeout
  | serverError
  | rejected
deriving DecidableEq

/-- `RequestAttempt`. -/
structure RequestAttempt where
  id : RequestAttemptId
  requestId : RequestId
  attemptNumber : Nat
  startedAt : SimTime
  completedAt : Option SimTime
  status : AttemptStatus
  payload : List UInt8
deriving DecidableEq

/-- `RequestAttempt::new`. -/
def RequestAttempt.new (id : RequestAttemptId) (requestId : RequestId) (attemptNumber : Nat) (startedAt : SimTime)
    (payload : List UInt8) : RequestAttempt :=
  ⟨id, requestId, attemptNumber, startedAt, none, .pending, payload⟩

/-- `RequestAttempt::duration`. -/
def RequestAttempt.duration (attempt : RequestAttempt) : Option Nat :=
  attempt.completedAt.map fun completed => completed.durationSince attempt.startedAt

/-- `RequestAttempt::complete`. -/
def RequestAttempt.complete (attempt : RequestAttempt) (completedAt : SimTime) (status : AttemptStatus) : RequestAttempt :=
  { attempt with completedAt := some completedAt, status }

/-- `RequestStatus`. -/
inductive RequestStatus where
  | pending
  | success
  | failed (reason : List Char)
  | exhausted
deriving DecidableEq

/-- `Request`. -/
structure Request where
  id : RequestId
  createdAt : SimTime
  payload : List UInt8
  attempts : List RequestAttemptId
  completedAt : Option SimTime
  status : RequestStatus
deriving DecidableEq

/-- `Request::new`. -/
def Request.new (id : RequestId) (createdAt : SimTime) (payload : List UInt8) : Request :=
  ⟨id, createdAt, payload, [], none, .pending⟩

/-- `Request::latency`. -/
def Request.latency (request : Request) : Option Nat :=
  request.completedAt.map fun completed => completed.durationSince request.createdAt

/-- `Request::add_attempt`. -/
def Request.addAttempt (request : Request) (attemptId : RequestAttemptId) : Request :=
  { request with attempts := request.attempts ++ [attemptId] }

/-- `Request::complete`. -/
def Request.complete (request : Request) (completedAt : SimTime) (status : RequestStatus) : Request :=
  { request with completedAt := some completedAt, status }

/-- `ResponseStatus`. -/
inductive ResponseStatus where
  | ok
  | error (code : Nat) (message : List Char)
deriving DecidableEq

/-- `Response`. -/
structure Response where
  attemptId : RequestAttemptId
  requestId : RequestId
  completedAt : SimTime
  payload : List UInt8
  status : ResponseStatus
deriving DecidableEq

/-- `Response::success`. -/
def Response.success (attemptId : RequestAttemptId) (requestId : RequestId) (completedAt : SimTime) (payload : List UInt8) :
    Response :=
  ⟨attemptId, requestId, completedAt, payload, .ok⟩

/-- `Response::error`. -/
def Response.error (attemptId : RequestAttemptId) (requestId : RequestId) (completedAt : SimTime) (code : Nat)
    (message : List Char) : Response :=
  ⟨attemptId, requestId, completedAt, [], .error code message⟩

/-- `Response::is_success`. -/
def Response.isSuccess (response : Response) : Bool := response.status = .ok

/-- `RequestContext`, whose `client_info` is never given. -/
structure RequestContext where
  method : List Char
  uri : List Char
  headers : AList fun _ : List Char => List Char
  bodySize : Nat
  payload : List UInt8

/-- `ServiceTimeDistribution`: a duration, and the distribution afterwards. -/
class ServiceTimeDistribution (δ : Type) where
  sampleServiceTime : δ → RequestContext → Nat × δ

/-- `ConstantServiceTime`. -/
structure ConstantServiceTime where
  duration : Nat
deriving DecidableEq

instance : ServiceTimeDistribution ConstantServiceTime := ⟨fun d _ => (d.duration, d)⟩

end DesCartes.Service
