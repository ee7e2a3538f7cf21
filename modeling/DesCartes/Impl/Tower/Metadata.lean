import DesCartes.Impl.Tower.Basic
import DesCartes.Impl.Tower.Http

/-!
# Requests with metadata (`des-tower/src/tower/retry/mod.rs`)

Of the extensions of a request the code reads one, the metadata of its retries.
-/

namespace DesCartes.Tower

open Service (RequestId)

/-- `RetryMetadata`. -/
structure RetryMetadata where
  originalRequestId : RequestId
  attemptNumber : Nat
  totalAttempts : Nat
deriving DecidableEq

namespace RetryMetadata

/-- `RetryMetadata::new`. -/
def new (requestId : RequestId) : RetryMetadata := ⟨requestId, 1, 1⟩

/-- `RetryMetadata::next_attempt`. -/
def nextAttempt (m : RetryMetadata) : RetryMetadata :=
  { m with attemptNumber := m.attemptNumber + 1, totalAttempts := m.totalAttempts + 1 }

end RetryMetadata

/-- `http::Request<SimBody>`, with its extension. -/
structure Request where
  http : HttpRequest
  retryMetadata : Option RetryMetadata

namespace Metadata

/-- `add_retry_metadata`. -/
def addRetryMetadata (request : Request) (retryMeta : RetryMetadata) : Request := { request with retryMetadata := some retryMeta }

/-- `get_retry_metadata`. -/
def getRetryMetadata (request : Request) : Option RetryMetadata := request.retryMetadata

/-- `create_retry_request`: the parts of the request are copied, its extensions are not. -/
def createRetryRequest (originalRequest : Request) (retryMeta : RetryMetadata) : Request :=
  addRetryMetadata ⟨originalRequest.http, none⟩ retryMeta

end Metadata

end DesCartes.Tower
