import AutomlApi.Library.Dict
import AutomlApi.Store.Memory
import AutomlApi.Webhooks.Times

/-! Webhook endpoints and their deliveries, with the runs and events that they are about,
and what is sent. An endpoint or a delivery is stored under its number; its id is that number
behind the prefix. The clock and the signature come from outside. -/

namespace AutomlApi.Webhooks

/-! ### Runs and events -/

/-- What a webhook reads of the payload of an event. -/
structure Payload where
  phase : Option String := none
  nextPhase : Option String := none
  nextStageReady : Option Bool := none
  reason : Option String := none
  failureCode : Option String := none
  deriving DecidableEq

structure Event where
  eventId : String
  seq : ℕ
  type : String
  occurredAt : Datetime
  payload : Payload := {}
  deriving DecidableEq

structure Run where
  tenantId : String
  phase : String
  webhookEndpointIds : List ℕ
  events : List Event := []

/-- The event as it is appended to the events of its run. -/
def Event.numbered (event : Event) (run : Run) : Event := { event with seq := run.events.length + 1 }

/-! ### Endpoints and deliveries -/

inductive EndpointStatus where
  | active | pausedDeliveryFailures | disabled
  deriving DecidableEq

structure Endpoint where
  tenantId : String
  url : String
  eventTypes : List String
  status : EndpointStatus := .active
  statusReason : Option String := none
  pausedAt : Option String := none
  signingSecret : String
  previousSigningSecret : Option String := none
  previousSecretValidUntil : Option String := none
  deriving DecidableEq

inductive DeliveryStatus where
  | pending | delivering | retrying | succeeded | exhausted
  deriving DecidableEq

/-- `_UNFINISHED`. -/
def DeliveryStatus.unfinished : DeliveryStatus → Bool
  | pending | delivering | retrying => true
  | succeeded | exhausted => false

/-- `_problem`. -/
structure Problem where
  type : String := "about:blank"
  title : String := "Webhook delivery failed"
  status : ℕ := 502
  code : String
  detail : String
  retriable : Bool := true
  correlationId : String
  runId : String
  deriving DecidableEq

structure Delivery where
  tenantId : String
  webhookEndpointId : ℕ
  eventId : String
  eventType : String
  runId : String
  status : DeliveryStatus := .pending
  attemptCount : ℕ := 0
  firstAttemptAt : Option String := none
  nextAttemptAt : Option String
  lastResponseStatus : Option ℕ := none
  lastProblem : Option Problem := none
  createdAt : String
  deliveredAt : Option String := none
  exhaustedAt : Option String := none
  redeliverUntil : Option String := none
  deriving DecidableEq

def deliveryId (n : ℕ) : String := Store.formatId "whd" n

def endpointId (n : ℕ) : String := Store.formatId "wh" n

/-! ### The callback -/

/-- `_CALLBACK_STAGE_NAMES`. -/
def callbackStageNames : Dict String String :=
  [("INGEST", "data_read"), ("PROFILE", "data_analysis"), ("PLAN", "task_recognition"), ("TRAIN", "model_training"),
    ("EVALUATE", "model_evaluation"), ("PACKAGE", "result_package")]

structure Callback where
  schemaVersion : String := "1.0"
  toolname : String := "automl"
  runId : String
  eventId : String
  seq : ℕ
  occurredAt : String
  stage : String
  states : String
  nextStage : Bool
  nextStageName : Option String
  reason : Option String
  deriving DecidableEq

/-- What an attempt raises: the name of the class, its text, and a status code if it has one. -/
structure Fault where
  name : String
  text : String
  statusCode : Option ℕ := none
  deriving DecidableEq

structure Envelope where
  deliveryId : ℕ
  webhookEndpointId : ℕ
  attempt : ℕ
  event : Event
  callback : Option Callback
  deriving DecidableEq

/-- The settings of the dispatcher, and what it takes from libraries: `str.strip().lower()`,
and the signature of a body under a secret, unless the secret does not decode. -/
structure Settings where
  maxAttempts : ℕ := 12
  normalize : String → String
  signature : (secret timestamp : String) → Envelope → Option String

variable (settings : Settings)

/-- `_callback_reason`. -/
def callbackReason (value : Option String) : Option String :=
  (value.map settings.normalize).filter (· ≠ "")

/-- The states of the callback with the next stage, its name and the reason. -/
def callbackOutcome (type : String) (payload : Payload) : Option (String × Bool × Option String × Option String) :=
  if type = "run.stage_completed.v1" then
    let nextStage := payload.nextStageReady.getD payload.nextPhase.isSome
    let reason := (callbackReason settings payload.reason).or
      (if nextStage then none
        else some (if payload.nextPhase.isNone then "workflow_completed" else "next_stage_blocked"))
    some ("success", nextStage, payload.nextPhase, reason)
  else if type = "run.failed.v1" then
    some ("failed", false, none, some ((callbackReason settings payload.failureCode).getD "stage_failed"))
  else if type = "run.canceled.v1" then
    some ("canceled", false, none, some "user_canceled")
  else none

/-- `stage_callback_for_event`. -/
def stageCallbackForEvent (runId : String) (event : Event) (fallbackPhase : Option String) :
    Except Fault (Option Callback) :=
  let phase := ((event.payload.phase.filter (· ≠ "")).or fallbackPhase).getD ""
  match callbackStageNames.get phase, callbackOutcome settings event.type event.payload with
  | some stage, some (states, nextStage, nextPhase, reason) =>
    if 1 ≤ event.seq then
      .ok <| some
        { runId := runId, eventId := event.eventId, seq := event.seq, occurredAt := event.occurredAt.iso,
          stage := stage, states := states, nextStage := nextStage,
          nextStageName := callbackStageNames.get (nextPhase.getD ""), reason := reason }
    else .error ⟨"ValidationError", "validation error for StageCallbackPayload", none⟩
  | _, _ => .ok none

/-! ### The service -/

structure Service where
  endpoints : Dict ℕ Endpoint := []
  deliveries : Dict ℕ Delivery := []
  runs : Dict String Run := []
  endpointCounter : ℕ := 0
  deliveryCounter : ℕ := 0

namespace Service

/-- `list_webhook_deliveries`. -/
def deliveriesOf (m : Service) (endpointId : ℕ) : Dict ℕ Delivery :=
  m.deliveries.filter fun entry => entry.2.webhookEndpointId = endpointId

/-- `get_webhook_delivery`. -/
def delivery (m : Service) (endpointId deliveryId : ℕ) : Option Delivery :=
  (m.deliveries.get deliveryId).filter (·.webhookEndpointId = endpointId)

/-- `update_webhook_delivery`. -/
def updateDelivery (m : Service) (endpointId deliveryId : ℕ) (patch : Delivery → Delivery) : Service :=
  match m.delivery endpointId deliveryId with
  | none => m
  | some delivery => { m with deliveries := m.deliveries.set deliveryId (patch delivery) }

/-- `update_webhook_endpoint`. -/
def updateEndpoint (m : Service) (endpointId : ℕ) (patch : Endpoint → Endpoint) : Service :=
  match m.endpoints.get endpointId with
  | none => m
  | some endpoint => { m with endpoints := m.endpoints.set endpointId (patch endpoint) }

/-- `create_webhook_endpoint`. -/
def createEndpoint (m : Service) (endpoint : Endpoint) : Service :=
  { m with
    endpoints := m.endpoints.set (m.endpointCounter + 1)
      { endpoint with
        status := .active
        statusReason := none
        pausedAt := none
        previousSigningSecret := none
        previousSecretValidUntil := none }
    endpointCounter := m.endpointCounter + 1 }

/-- One turn of the loop of `_append_webhook_deliveries_locked`. -/
def deliverTo (runId : String) (run : Run) (event : Event) (m : Service) (endpointId : ℕ) : Service :=
  match m.endpoints.get endpointId with
  | none => m
  | some endpoint =>
    if endpoint.tenantId ≠ run.tenantId ∨ endpoint.status = .disabled then m
    else if "*" ∉ endpoint.eventTypes ∧ event.type ∉ endpoint.eventTypes then m
    else if (m.deliveriesOf endpointId).any fun entry => entry.2.eventId = event.eventId then m
    else
      { m with
        deliveries := m.deliveries.set (m.deliveryCounter + 1)
          { tenantId := run.tenantId, webhookEndpointId := endpointId, eventId := event.eventId,
            eventType := event.type, runId := runId, nextAttemptAt := some event.occurredAt.iso,
            createdAt := event.occurredAt.iso }
        deliveryCounter := m.deliveryCounter + 1 }

/-- `append_event`: the event gets the next number of its run, and a delivery at every
endpoint that takes it. An event that is there already is not appended again. The ids of
the run's endpoints come in the order in which the set is walked through. -/
def appendEvent (m : Service) (runId : String) (endpointIds : List ℕ) (event : Event) : Option Service :=
  match m.runs.get runId with
  | none => none
  | some run =>
    if ¬ endpointIds.Perm run.webhookEndpointIds.dedup then none
    else if run.events.any (·.eventId = event.eventId) then some m
    else
      some (endpointIds.foldl (deliverTo runId run (event.numbered run))
        { m with runs := m.runs.set runId { run with events := run.events ++ [event.numbered run] } })

end Service

end AutomlApi.Webhooks
