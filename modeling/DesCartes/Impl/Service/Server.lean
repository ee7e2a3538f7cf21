import DesCartes.Impl.Hosted
import DesCartes.Impl.Service.Queue

/-!
# The server (`des-components/src/server.rs`)

What is printed and what is collected as metrics is left out.
-/

namespace DesCartes.Service

/-- The text of `"\r\n"`. -/
def crlf : List Char := ['\r', '\n']

/-- `str::split("\r\n")`. -/
def splitLines : List Char → List (List Char)
  | [] => [[]]
  | '\r' :: '\n' :: rest => [] :: splitLines rest
  | c :: rest =>
    match splitLines rest with
    | [] => [[c]]
    | line :: lines => (c :: line) :: lines

/-- `char::is_whitespace`. -/
def isWhitespace (c : Char) : Bool :=
  let n := c.toNat
  (9 ≤ n && n ≤ 13) || n = 0x20 || n = 0x85 || n = 0xA0 || n = 0x1680 || (0x2000 ≤ n && n ≤ 0x200A) || n = 0x2028 ||
    n = 0x2029 || n = 0x202F || n = 0x205F || n = 0x3000

/-- `str::split_whitespace`: the words between white space. -/
def splitWhitespace (text : List Char) : List (List Char) :=
  (text.splitOnP isWhitespace).filter (· ≠ [])

/-- `str::trim`. -/
def trim (text : List Char) : List Char := ((text.dropWhile isWhitespace).reverse.dropWhile isWhitespace).reverse

/-- The lines of the headers, up to the first empty one, and the lines behind it. -/
def headerLines : List (List Char) → List (List Char) × List (List Char)
  | [] => ([], [])
  | line :: lines => if line = [] then ([], lines) else (line :: (headerLines lines).1, (headerLines lines).2)

/-- A header is inserted, if the line has a colon. -/
def insertHeader (headers : AList fun _ : List Char => List Char) (line : List Char) : AList fun _ : List Char => List Char :=
  if ':' ∈ line then
    let colonPos := line.idxOf ':'
    headers.insert (trim (line.take colonPos)) (trim (line.drop (colonPos + 1)))
  else headers

/-- `Server::parse_request_payload`. -/
def parseRequestPayload (payload : List UInt8) : RequestContext :=
  let lines := splitLines (Utf8.decodeLossy payload)
  let requestLineParts := splitWhitespace (lines.headD [])
  let (headers, bodyLines) := headerLines lines.tail
  let body := Utf8.encode (crlf.intercalate bodyLines)
  { method := requestLineParts[0]?.getD "GET".toList
    uri := requestLineParts[1]?.getD "/".toList
    headers := headers.foldl insertHeader ∅
    bodySize := body.length
    payload := body }

/-! ## The server -/

/-- `ClientEvent`. -/
inductive ClientEvent where
  | sendRequest
  | responseReceived (response : Response)
  | requestTimeout (requestId : RequestId) (attemptId : RequestAttemptId)
  | retryRequest (requestId : RequestId)
deriving DecidableEq

/-- `ServerEvent`. -/
inductive ServerEvent where
  | processRequest (attempt : RequestAttempt) (clientId : Uuid)
  | requestCompleted (attemptId : RequestAttemptId) (requestId : RequestId) (clientId : Uuid) (requestPayload : List UInt8)
  | processQueuedRequests
deriving DecidableEq

/-- An event of a simulation with clients and servers. -/
inductive Event where
  | server (event : ServerEvent)
  | client (event : ClientEvent)
deriving DecidableEq

/-- `Server`. -/
structure Server (δ : Type) where
  threadCapacity : Nat
  activeThreads : Nat
  serviceTimeDistribution : δ
  queue : Option Queue
  requestsProcessed : Nat
  requestsRejected : Nat
  requestsQueued : Nat

namespace Server

variable {δ : Type}

/-- `Server::new`, and `with_queue`. -/
def new (threadCapacity : Nat) (serviceTimeDistribution : δ) (queue : Option Queue) : Server δ :=
  ⟨threadCapacity, 0, serviceTimeDistribution, queue, 0, 0, 0⟩

/-- `Server::has_capacity`. -/
def hasCapacity (s : Server δ) : Bool := s.activeThreads < s.threadCapacity

/-- `Server::queue_depth`. -/
def queueDepth (s : Server δ) : Nat := (s.queue.map Queue.len).getD 0

variable (self : Uuid) (now : SimTime)

/-- `Server::reject_request`. -/
def rejectRequest (s : Server δ) (attempt : RequestAttempt) (clientId : Uuid) : Server δ × Send Event :=
  ({ s with requestsRejected := s.requestsRejected + 1 },
    ⟨.fromDuration 1000000, clientId, .client (.responseReceived
      (.error attempt.id attempt.requestId now 503 "Server overloaded".toList))⟩)

/-- `Server::complete_request`. -/
def completeRequest (s : Server δ) (attemptId : RequestAttemptId) (requestId : RequestId) (clientId : Uuid)
    (requestPayload : List UInt8) : Server δ × List (Send Event) :=
  let s := { s with activeThreads := s.activeThreads - 1, requestsProcessed := s.requestsProcessed + 1 }
  let response := ⟨.fromDuration 1000000, clientId,
    .client (.responseReceived (.success attemptId requestId now requestPayload))⟩
  (s, response :: if s.hasCapacity && 0 < s.queueDepth then [⟨.fromDuration 0, self, .server .processQueuedRequests⟩] else [])

variable [ServiceTimeDistribution δ]

/-- `Server::start_processing_request`, and the event that it schedules. -/
def startProcessingRequest (s : Server δ) (attempt : RequestAttempt) (clientId : Uuid) : Server δ × Send Event :=
  let (serviceTime, serviceTimeDistribution) :=
    ServiceTimeDistribution.sampleServiceTime s.serviceTimeDistribution (parseRequestPayload attempt.payload)
  ({ s with activeThreads := s.activeThreads + 1, serviceTimeDistribution },
    ⟨.fromDuration serviceTime, self, .server (.requestCompleted attempt.id attempt.requestId clientId attempt.payload)⟩)

/-- `Server::handle_request`. -/
def handleRequest (s : Server δ) (attempt : RequestAttempt) (clientId : Uuid) : Server δ × List (Send Event) :=
  if s.hasCapacity then
    let (s, send) := s.startProcessingRequest self attempt clientId
    (s, [send])
  else
    match s.queue with
    | none =>
      let (s, send) := s.rejectRequest now attempt clientId
      (s, [send])
    | some queue =>
      match queue.enqueue (.withClientId attempt now clientId) with
      | .ok queue => ({ s with queue := some queue, requestsQueued := s.requestsQueued + 1 }, [])
      | .error _ =>
        let (s, send) := s.rejectRequest now attempt clientId
        (s, [send])

/-- The loop of `Server::process_queued_requests`. It runs at most once for each item of the queue.
An item without a client is processed for the client `Uuid::nil`. -/
def processQueuedLoop : Nat → Server δ → Server δ × List (Send Event)
  | 0, s => (s, [])
  | n + 1, s =>
    if s.hasCapacity then
      match s.queue with
      | none => (s, [])
      | some queue =>
        match queue.dequeue with
        | (none, queue) => ({ s with queue := some queue }, [])
        | (some item, queue) =>
          let (s, send) := { s with queue := some queue }.startProcessingRequest self item.attempt (item.clientId.getD 0)
          let (s, sends) := processQueuedLoop n s
          (s, send :: sends)
    else (s, [])

/-- `Server::process_queued_requests`. -/
def processQueuedRequests (s : Server δ) : Server δ × List (Send Event) := s.processQueuedLoop self s.queueDepth

/-- `Component for Server`. The event of another type is one that the code cannot be given. -/
def code : ComponentCode (Server δ) Event Empty where
  processEvent s self event now :=
    match event with
    | .server (.processRequest attempt clientId) => some (s.handleRequest self now attempt clientId)
    | .server (.requestCompleted attemptId requestId clientId requestPayload) =>
      some (s.completeRequest self now attemptId requestId clientId requestPayload)
    | .server .processQueuedRequests => some (s.processQueuedRequests self)
    | .client _ => none
  call _ _ method _ := method.elim

end Server

end DesCartes.Service
