import Mathlib.Data.List.Sort
import AutomlApi.Library.Runs
import AutomlApi.Webhooks.Data

/-! The dispatcher of webhook deliveries, and the process that it runs in. The dispatcher
yields in two places of an attempt: while it resolves the host of the endpoint, and while
it waits for the response. Between them it is the only one that writes; and the requests
on endpoints and deliveries read and write without yielding. An update may fail: then the
store is as it was. -/

namespace AutomlApi.Webhooks

/-! ### The choice of a delivery -/

/-- The first delivery that can be attempted now. A run is blocked by its first delivery
that is unfinished. -/
def due (now : String) : List String → List (ℕ × Delivery) → Option (ℕ × Delivery)
  | _, [] => none
  | blockedRuns, (n, delivery) :: rest =>
    if ¬ delivery.status.unfinished then due now blockedRuns rest
    else if delivery.runId ∈ blockedRuns then due now blockedRuns rest
    else if delivery.status = .delivering then due now (delivery.runId :: blockedRuns) rest
    else if delivery.nextAttemptAt.any (now < ·) then due now (delivery.runId :: blockedRuns) rest
    else some (n, delivery)

/-- The order of the deliveries of an endpoint, by `created_at` and `delivery_id`. -/
def Before (a b : ℕ × Delivery) : Prop :=
  a.2.createdAt < b.2.createdAt ∨ a.2.createdAt = b.2.createdAt ∧ deliveryId a.1 ≤ deliveryId b.1

instance : DecidableRel Before := fun _ _ => inferInstanceAs (Decidable (_ ∨ _ ∧ _))

/-- The order of the endpoints, by `webhook_endpoint_id`. -/
def Named (a b : ℕ × Endpoint) : Prop := endpointId a.1 ≤ endpointId b.1

instance : DecidableRel Named := fun _ _ => inferInstanceAs (Decidable (_ ≤ _))

/-- What `_dispatch_one` hands over to `_deliver`. -/
structure Picked where
  endpointId : ℕ
  endpoint : Endpoint
  deliveryId : ℕ
  delivery : Delivery

/-- The choice of `_dispatch_one`. -/
def dispatchOne (now : String) (m : Service) : Option Picked :=
  (m.endpoints.insertionSort Named).findSome? fun (endpointId, endpoint) =>
    if endpoint.status ≠ .active then none
    else
      (due now [] ((m.deliveriesOf endpointId).insertionSort Before)).map fun (deliveryId, delivery) =>
        ⟨endpointId, endpoint, deliveryId, delivery⟩

/-! ### An attempt -/

/-- What the dispatcher reads of the clock in a step: the time, in the text of a time and
in seconds; the time before which the first attempt is too long ago; the time after a
random delay; and the end of the retention of an exhausted delivery. -/
structure Clock where
  now : String
  timestamp : String := ""
  ageDeadline : String := ""
  retryAt : String := ""
  redeliverUntil : String := ""

/-- Which of the updates of a step succeed: of the delivery as the attempt begins, as it
has succeeded, as it ends otherwise, and of the endpoint. -/
structure Stored where
  begun : Bool := true
  succeeded : Bool := true
  ended : Bool := true
  paused : Bool := true

structure Request where
  timestamp : String
  envelope : Envelope
  signature : String
  deriving DecidableEq

/-- An attempt in progress, with the copies that it works on. -/
structure Attempt where
  endpointId : ℕ
  endpoint : Endpoint
  deliveryId : ℕ
  delivery : Delivery
  request : Request

variable (settings : Settings)

/-- The part of `_deliver` that makes the request. -/
def prepare (clock : Clock) (m : Service) (picked : Picked) (delivery : Delivery) : Except Fault Request :=
  match m.runs.get delivery.runId with
  | none => .error ⟨"RuntimeError", "WEBHOOK_EVENT_NOT_FOUND", none⟩
  | some run =>
    match run.events.find? (·.eventId = delivery.eventId) with
    | none => .error ⟨"RuntimeError", "WEBHOOK_EVENT_NOT_FOUND", none⟩
    | some event =>
      match stageCallbackForEvent settings delivery.runId event run.phase with
      | .error fault => .error fault
      | .ok callback =>
        let envelope : Envelope := ⟨picked.deliveryId, picked.endpointId, delivery.attemptCount, event, callback⟩
        match settings.signature picked.endpoint.signingSecret clock.timestamp envelope with
        | none => .error ⟨"Error", "Incorrect padding", none⟩
        | some signature => .ok ⟨clock.timestamp, envelope, signature⟩

/-- `exhausted` of `_retry_or_exhaust`. -/
def Delivery.isExhausted (clock : Clock) (delivery : Delivery) : Bool :=
  settings.maxAttempts ≤ delivery.attemptCount ∨ delivery.firstAttemptAt.getD clock.now < clock.ageDeadline

def problem (id : ℕ) (delivery : Delivery) (fault : Fault) : Problem where
  code := if "CALLBACK_".toList.isPrefixOf fault.text.toList ∨ "WEBHOOK_".toList.isPrefixOf fault.text.toList then
    fault.text else fault.name
  detail := String.ofList (fault.text.toList.take 500)
  correlationId := deliveryId id
  runId := delivery.runId

/-- The update that begins an attempt. -/
def Delivery.begin (clock : Clock) (copy delivery : Delivery) : Delivery :=
  { delivery with
    status := .delivering
    attemptCount := copy.attemptCount + 1
    firstAttemptAt := some (copy.firstAttemptAt.getD clock.now)
    nextAttemptAt := none }

def Delivery.succeed (clock : Clock) (status : ℕ) (delivery : Delivery) : Delivery :=
  { delivery with
    status := .succeeded
    lastResponseStatus := some status
    lastProblem := none
    deliveredAt := some clock.now
    nextAttemptAt := none }

def Delivery.exhaust (clock : Clock) (id : ℕ) (copy : Delivery) (fault : Fault) (delivery : Delivery) : Delivery :=
  { delivery with
    status := .exhausted
    nextAttemptAt := none
    lastProblem := some (problem id copy fault)
    lastResponseStatus := fault.statusCode
    exhaustedAt := some clock.now
    redeliverUntil := some clock.redeliverUntil }

def Delivery.retry (clock : Clock) (id : ℕ) (copy : Delivery) (fault : Fault) (delivery : Delivery) : Delivery :=
  { delivery with
    status := .retrying
    nextAttemptAt := some clock.retryAt
    lastProblem := some (problem id copy fault)
    lastResponseStatus := fault.statusCode }

/-- The update of a delivery whose attempt is cancelled, or was under way when the process died. -/
def Delivery.interrupt (now : String) (delivery : Delivery) : Delivery :=
  { delivery with
    status := .retrying
    nextAttemptAt := some now }

def Delivery.redeliver (now : String) (delivery : Delivery) : Delivery :=
  { delivery with
    status := .pending
    nextAttemptAt := some now
    lastProblem := none
    exhaustedAt := none
    redeliverUntil := none }

def Endpoint.pause (clock : Clock) (endpoint : Endpoint) : Endpoint :=
  { endpoint with
    status := .pausedDeliveryFailures
    statusReason := some "DELIVERY_RETRIES_EXHAUSTED"
    pausedAt := some clock.now }

/-- `_retry_or_exhaust`. Its last update is not reached when the one before fails. -/
def retryOrExhaust (clock : Clock) (stored : Stored) (endpointId id : ℕ) (delivery : Delivery) (fault : Fault)
    (m : Service) : Service :=
  if ¬ stored.ended then m
  else if delivery.isExhausted settings clock then
    let m := m.updateDelivery endpointId id (Delivery.exhaust clock id delivery fault)
    if stored.paused then m.updateEndpoint endpointId (Endpoint.pause clock) else m
  else m.updateDelivery endpointId id (Delivery.retry clock id delivery fault)

/-! ### The process -/

/-- Where the dispatcher is: not running; between two iterations; in an attempt, at the
resolution of the host or at the request. -/
inductive Stage where
  | stopped
  | idle
  | resolving (attempt : Attempt)
  | sending (attempt : Attempt)

def Stage.attempt? : Stage → Option Attempt
  | resolving attempt | sending attempt => some attempt
  | stopped | idle => none

structure System where
  service : Service := {}
  stage : Stage := .stopped

inductive Action where
  | createEndpoint (endpoint : Endpoint)
  | createRun (runId : String) (run : Run)
  | enterPhase (runId phase : String)
  | append (runId : String) (endpointIds : List ℕ) (event : Event)
  | delete (endpointId : ℕ) (now : String)
  | rotate (endpointId : ℕ) (secret validUntil : String)
  | enable (endpointId : ℕ)
  | redeliver (endpointId deliveryId : ℕ) (expired : Bool) (now : String)
  | start (failsAt : Option ℕ) (now : String)
  | dispatch (clock : Clock) (stored : Stored)
  | resolved (fault : Option Fault) (clock : Clock) (stored : Stored)
  | response (outcome : Except Fault ℕ) (clock : Clock) (stored : Stored)
  | stop (stored : Bool) (now : String)

namespace Service

/-- `delete_webhook_endpoint`. -/
def delete (m : Service) (endpointId : ℕ) (now : String) : Service :=
  m.updateEndpoint endpointId fun endpoint =>
    if endpoint.status = .disabled then endpoint
    else { endpoint with status := .disabled, statusReason := some "Deleted by API request.", pausedAt := some now }

/-- `rotate_webhook_endpoint_secret`. -/
def rotate (m : Service) (endpointId : ℕ) (secret validUntil : String) : Service :=
  m.updateEndpoint endpointId fun endpoint =>
    if endpoint.status = .disabled then endpoint
    else
      { endpoint with
        signingSecret := secret
        previousSigningSecret := some endpoint.signingSecret
        previousSecretValidUntil := some validUntil }

/-- `enable_webhook_endpoint`. -/
def enable (m : Service) (endpointId : ℕ) : Service :=
  m.updateEndpoint endpointId fun endpoint =>
    if endpoint.status = .active then endpoint
    else { endpoint with status := .active, statusReason := none, pausedAt := none }

def Redeliverable (expired : Bool) : DeliveryStatus → Bool
  | .pending | .retrying => true
  | .exhausted => !expired
  | .delivering | .succeeded => false

/-- `redeliver_webhook_delivery`; an exhausted delivery may have expired. -/
def redeliver (m : Service) (endpointId deliveryId : ℕ) (expired : Bool) (now : String) : Service :=
  match m.endpoints.get endpointId with
  | none => m
  | some endpoint =>
    if endpoint.status ≠ .active then m
    else
      m.updateDelivery endpointId deliveryId fun delivery =>
        if Redeliverable expired delivery.status then delivery.redeliver now else delivery

/-- The deliveries in the order in which the recovery comes to them. -/
def interrupted (m : Service) : List (ℕ × ℕ) :=
  m.endpoints.flatMap fun endpoint =>
    ((m.deliveriesOf endpoint.1).filter fun entry => entry.2.status = .delivering).map fun entry => (endpoint.1, entry.1)

def recover (now : String) (m : Service) (ids : List (ℕ × ℕ)) : Service :=
  ids.foldl (fun m id => m.updateDelivery id.1 id.2 (Delivery.interrupt now)) m

end Service

/-- The end of an attempt that has failed. -/
def fail (clock : Clock) (stored : Stored) (attempt : Attempt) (fault : Fault) (m : Service) : System :=
  ⟨retryOrExhaust settings clock stored attempt.endpointId attempt.deliveryId attempt.delivery fault m, .idle⟩

/-- `_deliver`, until it resolves the host. -/
def deliver (clock : Clock) (stored : Stored) (picked : Picked) (m : Service) : System :=
  if ¬ stored.begun then ⟨m, .idle⟩
  else
    let m := m.updateDelivery picked.endpointId picked.deliveryId (Delivery.begin clock picked.delivery)
    match m.delivery picked.endpointId picked.deliveryId with
    | none => ⟨m, .idle⟩
    | some delivery =>
      match prepare settings clock m picked delivery with
      | .ok request => ⟨m, .resolving ⟨picked.endpointId, picked.endpoint, picked.deliveryId, delivery, request⟩⟩
      | .error fault =>
        ⟨retryOrExhaust settings clock stored picked.endpointId picked.deliveryId delivery fault m, .idle⟩

/-- What the store raises where an update fails. -/
def storeFault : Fault := ⟨"OperationalError", "database or disk is full", none⟩

/-- The rest of `_deliver` after the response, or after what the request raised. -/
def conclude (clock : Clock) (stored : Stored) (attempt : Attempt) (outcome : Except Fault ℕ) (m : Service) : System :=
  match outcome with
  | .error fault => fail settings clock stored attempt fault m
  | .ok status =>
    if 200 ≤ status ∧ status < 300 then
      if stored.succeeded then
        ⟨m.updateDelivery attempt.endpointId attempt.deliveryId (Delivery.succeed clock status), .idle⟩
      else fail settings clock stored attempt storeFault m
    else fail settings clock stored attempt ⟨"_WebhookHTTPError", s!"CALLBACK_HTTP_{status}", some status⟩ m

/-- The end of an attempt that is cancelled. -/
def cancel (stored : Bool) (now : String) (attempt : Attempt) (m : Service) : System :=
  ⟨if stored then m.updateDelivery attempt.endpointId attempt.deliveryId (Delivery.interrupt now) else m, .stopped⟩

namespace System

def act (s : System) (m : Service) : System := { s with service := m }

def halt (s : System) : System := { s with stage := .stopped }

/-- A request or a step of the dispatcher; nothing where the dispatcher is elsewhere. -/
def take (s : System) : Action → Option System
  | .createEndpoint endpoint => some (s.act (s.service.createEndpoint endpoint))
  | .createRun runId run =>
    if s.service.runs.has runId then none
    else some (s.act { s.service with runs := s.service.runs.set runId { run with events := [] } })
  | .enterPhase runId phase =>
    (s.service.runs.get runId).map fun run =>
      s.act { s.service with runs := s.service.runs.set runId { run with phase := phase } }
  | .append runId endpointIds event => (s.service.appendEvent runId endpointIds event).map s.act
  | .delete endpointId now => some (s.act (s.service.delete endpointId now))
  | .rotate endpointId secret validUntil => some (s.act (s.service.rotate endpointId secret validUntil))
  | .enable endpointId => some (s.act (s.service.enable endpointId))
  | .redeliver endpointId deliveryId expired now => some (s.act (s.service.redeliver endpointId deliveryId expired now))
  | .start failsAt now =>
    match s.stage, failsAt with
    | .stopped, none => some ⟨s.service.recover now s.service.interrupted, .idle⟩
    | .stopped, some n => some ⟨s.service.recover now (s.service.interrupted.take n), .stopped⟩
    | _, _ => none
  | .dispatch clock stored =>
    match s.stage with
    | .idle => some ((dispatchOne clock.now s.service).elim s fun picked => deliver settings clock stored picked s.service)
    | _ => none
  | .resolved fault clock stored =>
    match s.stage with
    | .resolving attempt =>
      some (fault.elim { s with stage := .sending attempt } fun fault => fail settings clock stored attempt fault s.service)
    | _ => none
  | .response outcome clock stored =>
    match s.stage with
    | .sending attempt => some (conclude settings clock stored attempt outcome s.service)
    | _ => none
  | .stop stored now => some (s.stage.attempt?.elim s.halt fun attempt => cancel stored now attempt s.service)

/-- The attempt in progress, or the one that begins, comes to `_retry_or_exhaust`. -/
def fails (s : System) : Action → Bool
  | .dispatch clock stored =>
    match s.stage, dispatchOne clock.now s.service with
    | .idle, some picked =>
      let m := s.service.updateDelivery picked.endpointId picked.deliveryId (Delivery.begin clock picked.delivery)
      stored.begun && (m.delivery picked.endpointId picked.deliveryId).any fun delivery =>
        !(prepare settings clock m picked delivery).isOk
    | _, _ => false
  | .resolved fault _ _ => fault.isSome
  | .response (.error _) _ _ => true
  | .response (.ok status) _ stored => !(200 ≤ status ∧ status < 300) || !stored.succeeded
  | _ => false

/-- An action, or the death of the process, between two actions or after any of the updates
of one: those that it does not reach are as if they failed. -/
inductive Label where
  | action (a : Action)
  | crash (during : Option Action)

def step (s : System) : Label → Option System
  | .action a => s.take settings a
  | .crash none => some s.halt
  | .crash (some a) => (s.take settings a).map halt

end System

end AutomlApi.Webhooks
