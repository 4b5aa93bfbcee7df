import AutomlApi.Library.Runs
import AutomlApi.Store.Sqlite

/-! The requests of one tenant that carry the same Idempotency-Key to the same
operation. A request reserves the key, executes its operation and records the answer;
the others are answered with what is recorded, or wait for it. Between two events the
rest of the process may run any operation of the store, the request's own among
them. -/

namespace AutomlApi.Requests

open Act (get check)
open Store (Fields IdempotencyState Memory Op Raised SetOrder SqliteStore StoredResponse StoreM Value)

/-! ### Problems and responses -/

/-- `APIProblem`. -/
structure APIProblem where
  status : ℤ
  code : String
  title : String
  detail : String
  retriable : Bool := false
  extras : Fields := []
  headers : Fields := []

def APIProblem.body (problem : APIProblem) (correlationId : String) : Value :=
  .dict (Dict.update
    [("type", .str ("/problems/" ++ problem.code)), ("title", .str problem.title),
      ("status", .int problem.status), ("code", .str problem.code), ("detail", .str problem.detail),
      ("retriable", .bool problem.retriable), ("correlation_id", .str correlationId)]
    problem.extras)

structure HttpResponse where
  statusCode : ℤ
  body : Option Value
  headers : Fields

/-- `_stored_http_response`: some statuses have no body. -/
def storedHttpResponse (stored : StoredResponse) : HttpResponse :=
  if (100 ≤ stored.statusCode ∧ stored.statusCode < 200) ∨ stored.statusCode ∈ [204, 205, 304] then
    ⟨stored.statusCode, none, stored.headers⟩
  else ⟨stored.statusCode, some stored.body, stored.headers⟩

/-- `handle_api_problem`. -/
def handleApiProblem (problem : APIProblem) (correlationId : String) : HttpResponse :=
  let headers :=
    if problem.status = 401 then Dict.setDefault problem.headers "WWW-Authenticate" (.str "Bearer")
    else problem.headers
  ⟨problem.status, some (problem.body correlationId),
    Dict.set headers "Content-Type" (.str "application/problem+json")⟩

def invalidIdempotencyKey : APIProblem where
  status := 400
  code := "invalid_idempotency_key"
  title := "Invalid Idempotency-Key"
  detail := "Idempotency-Key must contain visible ASCII characters only."

/-- The conflict, with the detail of the place that finds it. -/
def idempotencyKeyReused (detail : String) : APIProblem where
  status := 409
  code := "idempotency_key_reused"
  title := "Idempotency-Key was reused"
  detail := detail

def idempotencyRequestInProgress : APIProblem where
  status := 409
  code := "idempotency_request_in_progress"
  title := "Request is still in progress"
  detail := "Retry the same request with the same Idempotency-Key."
  retriable := true
  headers := [("Retry-After", .str "1")]

/-- `handle_unexpected_error`. -/
def internalError : APIProblem where
  status := 500
  code := "internal_error"
  title := "Internal server error"
  detail := "The service could not complete the request."
  retriable := true

/-! ### Requests -/

/-- Where a request is. `answered` returns a recorded response, `refused` raises a
problem, `raised` any other exception; a request that is `cancelled` has no answer. -/
inductive Stage where
  | arrived
  | waiting
  | executing
  | answered (stored : StoredResponse)
  | refused (problem : APIProblem)
  | raised
  | cancelled

structure Request where
  fingerprint : String
  correlationId : String
  stage : Stage

/-- What the client receives. -/
def Request.response (request : Request) : Option HttpResponse :=
  match request.stage with
  | .answered stored => some (storedHttpResponse stored)
  | .refused problem => some (handleApiProblem problem request.correlationId)
  | .raised => some (handleApiProblem internalError request.correlationId)
  | _ => none

/-- How `execute()` ends. -/
inductive Outcome where
  | completed (statusCode : ℤ) (body : Value) (headers : Fields)
  | problem (problem : APIProblem)
  | failed

/-- The store, the requests in the order they came, and how often `execute()` has run
to its end. -/
structure Server where
  store : SqliteStore
  requests : List Request
  completed : ℕ

def Server.init (store : SqliteStore) : Server := ⟨store, [], 0⟩

/-- The request goes to a stage, and the store with it. -/
def Server.move (s : Server) (i : ℕ) (request : Request) (next : Stage × SqliteStore) : Server :=
  { s with store := next.2, requests := s.requests.set i { request with stage := next.1 } }

/-- `_durable_mutation` with the reply of the method. -/
def durably {α : Type} (m : StoreM α) (disk : Bool) (s : SqliteStore) : Except Raised α × SqliteStore :=
  match (m s.memory).1, Store.durableMutation (Op.method.void m) disk s with
  | .ok a, (.ok (), s') => (.ok a, s')
  | .ok _, (.error raised, s') => (.error raised, s')
  | .error fault, (_, s') => (.error (.store fault), s')

/-- `get_idempotency`; `none` is a miss. -/
def getIdempotency (operation key fingerprint : String) (memory : Memory) :
    Except Store.Fault (Option IdempotencyState) :=
  (Store.idempotencyIdentity operation key fingerprint).map fun identity =>
    (memory.idempotency.get identity).map fun record => Store.idempotencyDecision record fingerprint

/-- The headers of a recorded answer. -/
def recordedHeaders (request : Request) (headers : Fields) : Fields :=
  Dict.update [("X-Correlation-ID", .str request.correlationId)] headers

/-- The headers of a recorded problem. -/
def problemHeaders (request : Request) (headers : Fields) : Fields :=
  Dict.update [("Content-Type", .str "application/problem+json"), ("X-Correlation-ID", .str request.correlationId)]
    headers

/-- Whether the key has a character that is no visible ASCII character. -/
def invisible (key : String) : Bool := key.toList.any fun c => c.toNat < 33 ∨ 126 < c.toNat

section Key

variable (operation key : String)

/-- The record of the key. -/
def recordOf (s : SqliteStore) : Option Store.IdempotencyRecord := s.memory.idempotency.get (operation, key)

/-- The response that a decision to replay hands out. -/
def handedOut (s : SqliteStore) : Option StoredResponse := (recordOf operation key s).bind (·.response)

/-- What `_idempotent` does with a decision that is no reservation, after it has
waited. -/
def concluded (decision : Option IdempotencyState) (response : Option StoredResponse) : Stage :=
  match decision, response with
  | some .replay, some stored => .answered stored
  | some .conflict, _ => .refused (idempotencyKeyReused "Use a new Idempotency-Key when the request changes.")
  | _, _ => .refused idempotencyRequestInProgress

/-- `_idempotent` up to its first wait. -/
def begin (disk : Bool) (request : Request) (s : SqliteStore) : Stage × SqliteStore :=
  if invisible key then (.refused invalidIdempotencyKey, s)
  else
    match durably (Store.beginIdempotentRequest operation key request.fingerprint) disk s with
    | (.error _, s') => (.raised, s')
    | (.ok .new, s') => (.executing, s')
    | (.ok .inProgress, s') => (.waiting, s')
    | (.ok .conflict, s') =>
      (.refused (idempotencyKeyReused
        "Use a new Idempotency-Key when the request path, query, or body changes."), s')
    | (.ok .replay, s') => (concluded (some .replay) (handedOut operation key s'), s')

/-- One turn of the loop of `wait_for_idempotent_response`, which ends when there is no
time left, and what `_idempotent` does with its decision. -/
def look (timedOut : Bool) (request : Request) (s : SqliteStore) : Stage :=
  match getIdempotency operation key request.fingerprint s.memory with
  | .error _ => .raised
  | .ok (some .inProgress) => if timedOut then concluded (some .inProgress) none else .waiting
  | .ok decision => concluded decision (handedOut operation key s)

/-- The handler of an unexpected exception: the reservation is taken back and the
exception raised again. -/
def aborted (disk : Bool) (request : Request) (s : SqliteStore) : Stage × SqliteStore :=
  (.raised, (durably (Store.abortIdempotentRequest operation key request.fingerprint) disk s).2)

/-- The end of `_idempotent` for the request that executes. The same handler takes an
exception of `execute()`, of `jsonable_encoder` and of the recording of the answer; the
recording of a problem has none. -/
def finish (outcome : Outcome) (disk abortDisk : Bool) (request : Request) (s : SqliteStore) :
    Stage × SqliteStore :=
  match outcome with
  | .completed statusCode body headers =>
    match body.jsonable with
    | none => aborted operation key abortDisk request s
    | some encoded =>
      match durably (Store.completeIdempotentRequest operation key request.fingerprint statusCode encoded
          (recordedHeaders request headers)) disk s with
      | (.ok stored, s') => (.answered stored, s')
      | (.error _, s') => aborted operation key abortDisk request s'
  | .problem problem =>
    match durably (Store.completeIdempotentRequest operation key request.fingerprint problem.status
        (problem.body request.correlationId) (problemHeaders request problem.headers)) disk s with
    | (.ok stored, s') => (.answered stored, s')
    | (.error _, s') => (.raised, s')
  | .failed => aborted operation key abortDisk request s

/-! ### Events -/

/-- Whether an operation writes the records of the key. -/
def writesRecord : Op → Bool
  | .beginIdempotentRequest o k _ => o = operation ∧ k = key
  | .completeIdempotentRequest o k .. => o = operation ∧ k = key
  | .abortIdempotentRequest o k _ => o = operation ∧ k = key
  | .reset => true
  | _ => false

/-- What may happen next. A request is cancelled where it waits or executes; `other` is
any call of the store that is not for this key. -/
inductive Event where
  | arrive (fingerprint correlationId : String)
  | begin (i : ℕ) (disk : Bool)
  | look (i : ℕ) (timedOut : Bool)
  | finish (i : ℕ) (outcome : Outcome) (disk abortDisk : Bool)
  | cancel (i : ℕ)
  | other (op : Op) (disk : Bool)

/-- Whether `execute()` ran to its end. -/
def Outcome.completes : Outcome → Bool
  | .completed .. => true
  | _ => false

def Server.step (o : SetOrder) (s : Server) : Event → Option Server
  | .arrive fingerprint correlationId =>
    some { s with requests := s.requests ++ [⟨fingerprint, correlationId, .arrived⟩] }
  | .begin i disk =>
    (s.requests[i]?).bind fun request =>
      match request.stage with
      | .arrived => some (s.move i request (Requests.begin operation key disk request s.store))
      | _ => none
  | .look i timedOut =>
    (s.requests[i]?).bind fun request =>
      match request.stage with
      | .waiting => some (s.move i request (Requests.look operation key timedOut request s.store, s.store))
      | _ => none
  | .finish i outcome disk abortDisk =>
    (s.requests[i]?).bind fun request =>
      match request.stage with
      | .executing =>
        let next := s.move i request (Requests.finish operation key outcome disk abortDisk request s.store)
        some { next with completed := if outcome.completes then s.completed + 1 else s.completed }
      | _ => none
  | .cancel i =>
    (s.requests[i]?).bind fun request =>
      match request.stage with
      | .waiting | .executing => some (s.move i request (.cancelled, s.store))
      | _ => none
  | .other op disk =>
    if writesRecord operation key op then none
    else some { s with store := (op.apply o disk s.store).2 }

end Key

end AutomlApi.Requests
