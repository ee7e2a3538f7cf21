import DesCartes.Impl.Service.RetryPolicy
import DesCartes.Impl.Service.Server

/-!
# The client (`des-components/src/simple_client.rs`)

What is printed and the histogram of the response times are left out, as are `request_interval` and
`max_requests`, which the client does not read.
-/

namespace DesCartes.Service

/-- The counters of the `SimulationMetrics` of a client. -/
structure ClientMetrics where
  attemptsSent : Nat
  requestsSent : Nat
  responsesSuccess : Nat
  responsesFailure : Nat
  requestsTimeout : Nat
  retriesScheduled : Nat
  requestsFailedPermanently : Nat
deriving DecidableEq

/-- `SimpleClient`. -/
structure SimpleClient (P : Type) where
  name : List Char
  serverKey : Uuid
  requestsSent : Nat
  metrics : ClientMetrics
  nextRequestId : Nat
  nextAttemptId : Nat
  retryPolicy : P
  requestTimeout : Nat
  activeRequests : AList fun _ : RequestId => RequestAttempt × P

namespace SimpleClient

variable {P : Type}

/-- `SimpleClient::new`. -/
def new (name : List Char) (serverKey : Uuid) (retryPolicy : P) : SimpleClient P :=
  ⟨name, serverKey, 0, ⟨0, 0, 0, 0, 0, 0, 0⟩, 1, 1, retryPolicy, 5000 * nanosPerMilli, ∅⟩

/-- `SimpleClient::with_timeout`. -/
def withTimeout (c : SimpleClient P) (requestTimeout : Nat) : SimpleClient P := { c with requestTimeout }

variable (self : Uuid) (now : SimTime)

/-- `SimpleClient::send_attempt`. -/
def sendAttempt (c : SimpleClient P) (requestId : RequestId) (attemptNumber : Nat) :
    RequestAttempt × SimpleClient P × List (Send Event) :=
  let attemptId := c.nextAttemptId
  let payload := "Request ".toList ++ (toString requestId.id).toList ++ " from ".toList ++ c.name
  let attempt := RequestAttempt.new ⟨attemptId⟩ requestId attemptNumber now (Utf8.encode payload)
  (attempt,
    { c with nextAttemptId := c.nextAttemptId + 1, metrics := { c.metrics with attemptsSent := c.metrics.attemptsSent + 1 } },
    [⟨.fromDuration c.requestTimeout, self, .client (.requestTimeout requestId ⟨attemptId⟩)⟩,
      ⟨.zero, c.serverKey, .server (.processRequest attempt self)⟩])

/-- `SimpleClient::handle_retry`. -/
def handleRetry (c : SimpleClient P) (requestId : RequestId) : SimpleClient P × List (Send Event) :=
  match c.activeRequests.lookup requestId with
  | none => (c, [])
  | some (attempt, retryPolicy) =>
    let c := { c with activeRequests := c.activeRequests.erase requestId }
    let (newAttempt, c, sends) := c.sendAttempt self now requestId (attempt.attemptNumber + 1)
    ({ c with activeRequests := c.activeRequests.insert requestId (newAttempt, retryPolicy) }, sends)

variable [RetryPolicy P]

/-- `ClientEvent::SendRequest`. -/
def sendRequest (c : SimpleClient P) : SimpleClient P × List (Send Event) :=
  let requestId : RequestId := ⟨c.nextRequestId⟩
  let c := { c with nextRequestId := c.nextRequestId + 1 }
  let retryPolicy := RetryPolicy.reset c.retryPolicy
  let (attempt, c, sends) := c.sendAttempt self now requestId 1
  ({ c with
      activeRequests := c.activeRequests.insert requestId (attempt, retryPolicy)
      requestsSent := c.requestsSent + 1
      metrics := { c.metrics with requestsSent := c.metrics.requestsSent + 1 } }, sends)

/-- `SimpleClient::handle_response`. -/
def handleResponse (c : SimpleClient P) (response : Response) : Option (SimpleClient P × List (Send Event)) :=
  let requestId := response.requestId
  match c.activeRequests.lookup requestId with
  | none => some (c, [])
  | some (attempt, retryPolicy) =>
    let c := { c with activeRequests := c.activeRequests.erase requestId }
    if response.isSuccess then
      some ({ c with metrics := { c.metrics with responsesSuccess := c.metrics.responsesSuccess + 1 } }, [])
    else
      let c := { c with metrics := { c.metrics with responsesFailure := c.metrics.responsesFailure + 1 } }
      match RetryPolicy.shouldRetry retryPolicy attempt (some response) with
      | none => none
      | some (some retryDelay, retryPolicy) =>
        some ({ c with
          activeRequests := c.activeRequests.insert requestId (attempt, retryPolicy)
          metrics := { c.metrics with retriesScheduled := c.metrics.retriesScheduled + 1 } },
          [⟨.fromDuration retryDelay, self, .client (.retryRequest requestId)⟩])
      | some (none, _) =>
        some ({ c with
          metrics := { c.metrics with requestsFailedPermanently := c.metrics.requestsFailedPermanently + 1 } }, [])

/-- `SimpleClient::handle_timeout`. -/
def handleTimeout (c : SimpleClient P) (requestId : RequestId) (attemptId : RequestAttemptId) :
    Option (SimpleClient P × List (Send Event)) :=
  match c.activeRequests.lookup requestId with
  | none => some (c, [])
  | some (attempt, retryPolicy) =>
    if attempt.id = attemptId then
      let c := { c with metrics := { c.metrics with requestsTimeout := c.metrics.requestsTimeout + 1 } }
      match RetryPolicy.shouldRetry retryPolicy attempt none with
      | none => none
      | some (some retryDelay, retryPolicy) =>
        some ({ c with
          activeRequests := c.activeRequests.insert requestId (attempt, retryPolicy)
          metrics := { c.metrics with retriesScheduled := c.metrics.retriesScheduled + 1 } },
          [⟨.fromDuration retryDelay, self, .client (.retryRequest requestId)⟩])
      | some (none, _) =>
        some ({ c with
          activeRequests := c.activeRequests.erase requestId
          metrics := { c.metrics with requestsFailedPermanently := c.metrics.requestsFailedPermanently + 1 } }, [])
    else some (c, [])

/-- `Component for SimpleClient`. The event of another type is one that the code cannot be given. -/
def code : ComponentCode (SimpleClient P) Event Empty where
  processEvent c self event now :=
    match event with
    | .client .sendRequest => some (c.sendRequest self now)
    | .client (.responseReceived response) => c.handleResponse self response
    | .client (.requestTimeout requestId attemptId) => c.handleTimeout self requestId attemptId
    | .client (.retryRequest requestId) => some (c.handleRetry self now requestId)
    | .server _ => none
  call _ _ method _ := method.elim

end SimpleClient

end DesCartes.Service
