import AutomlApi.Store.Memory

/-! The event log of a run with its webhook deliveries, and the operations that write
several collections as one: `append_event`, `mutate_run_with_event` and
`finalize_run_with_result`. -/

namespace AutomlApi.Store

open Act (get modify raise check)

/-! ### Events -/

/-- What `_append_event_locked` makes of an event: the event that is there under its
id already, or one to append, still without an id if it brought none. -/
inductive Prepared where
  | existing (event : Fields)
  | fresh (event : Fields)

/-- The checks of `_append_event_locked`, all of which come before it writes. -/
def prepareEvent (runId : String) (value : Value) (memory : Memory) : Except Fault Prepared := do
  if ¬ memory.runs.has runId then .error (.notFound "run" runId)
  else
    let event ← mapping "event" value
    match event.get "run_id" with
    | some supplied =>
      if supplied.equal .null ∨ supplied.equal (.str runId) then
        identified (event.set "run_id" (.str runId))
      else .error (.value "event.run_id does not match its parent run")
    | none => identified (event.set "run_id" (.str runId))
where
  /-- The check of the id of an event. -/
  identified (event : Fields) : Except Fault Prepared :=
    match event.get "event_id" with
    | none | some .null => .ok (.fresh event)
    | some value =>
      match value.nonEmptyString? with
      | none => .error (.value "event.event_id must be a non-empty string")
      | some id =>
        match memory.eventIds.get runId with
        | none => .error (.key runId)
        | some ids =>
          match ids.get id with
          | none => .ok (.fresh event)
          | some existing =>
            let comparable := (event.set "seq" ((existing.get "seq").getD .null)).setDefault "run_revision"
              ((existing.get "run_revision").getD .null)
            if (Value.dict comparable).equal (.dict existing) then .ok (.existing existing)
            else .error (.alreadyExists "event" id)

/-- Appends an event that has its id: to the log, to the index and, by its number, to
the run. -/
def pushEvent (runId : String) (event : Fields) (memory : Memory) : Memory :=
  let log := (memory.events.get runId).getD []
  let ids := (memory.eventIds.get runId).getD []
  let eventId := ((event.get "event_id").bind Value.nonEmptyString?).getD ""
  let run := (memory.runs.get runId).getD []
  { memory with
    events := memory.events.set runId (log ++ [event])
    eventIds := memory.eventIds.set runId (ids.set eventId event)
    runs := memory.runs.set runId (run.set "snapshot_seq" (.int (log.length + 1))) }

/-- `_append_event_locked`: the stored event, and whether it is a new one. -/
def appendEventLocked (runId : String) (value : Value) : StoreM (Fields × Bool) := do
  let memory ← get
  match prepareEvent runId value memory with
  | .error fault => raise fault
  | .ok (.existing event) => pure (event, false)
  | .ok (.fresh event) =>
    match memory.events.get runId with
    | none => raise (.key runId)
    | some log => do
      let event ← withId "event_id" "evt" event
      let run := (memory.runs.get runId).getD []
      let event := (event.set "seq" (.int (log.length + 1))).setDefault "run_revision"
        ((run.get "run_revision").getD (.int 1))
      modify (pushEvent runId event)
      pure (event, true)

/-! ### Webhook deliveries -/

/-- Whether a value has a hash. -/
def hashable : Value → Bool
  | .list _ | .dict _ => false
  | _ => true

/-- What iteration over a value yields. -/
def elements : Value → Except Fault (List Value)
  | .list items => .ok items
  | .str s => .ok (s.toList.map fun c => .str (String.singleton c))
  | .dict fields => .ok (fields.map fun p => .str p.1)
  | _ => .error (.type "object is not iterable")

/-- `set(value or [])`, which keeps the first of equal elements. -/
def pySet (value : Value) : Except Fault (List Value) :=
  if falsy value then .ok []
  else
    match elements value with
    | .error fault => .error fault
    | .ok items =>
      if items.all hashable then .ok (items.eraseDupsBy Value.within) else .error (.type "unhashable type")

/-- The order in which Python walks through a set of strings, and the texts of floats
and of objects. -/
structure SetOrder where
  iterate : List String → List String
  perm : ∀ ids, (iterate ids).Perm ids
  text : Value → String

/-- `str(value)` of a value that has a hash. -/
def pyStr (o : SetOrder) : Value → String
  | .null => "None"
  | .bool b => if b then "True" else "False"
  | .int i => toString i
  | .str s => s
  | value => o.text value

/-- The endpoints that a run names, each once: a second name of an endpoint finds the
delivery of the first one. -/
def selectedEndpointIds (o : SetOrder) (run : Fields) : Except Fault (List String) :=
  (pySet ((run.get "webhook_endpoint_ids").getD .null)).map fun items => o.iterate (items.map (pyStr o)).dedup

/-- Whether an endpoint takes the event. An endpoint is stored under its own id. -/
def subscribed (memory : Memory) (run event : Fields) (endpointId : String) : Except Fault Bool :=
  match memory.webhookEndpoints.get endpointId with
  | none => .ok false
  | some endpoint =>
    if ¬ ((endpoint.get "tenant_id").getD .null).equal ((run.get "tenant_id").getD .null) ∨
        ((endpoint.get "status").getD .null).equal (.str "DISABLED") then .ok false
    else
      match pySet ((endpoint.get "event_types").getD .null) with
      | .error fault => .error fault
      | .ok types =>
        let type := (event.get "type").getD .null
        if types.any (Value.equal (.str "*")) then .ok true
        else if hashable type then .ok (types.any (Value.within type))
        else .error (.type "unhashable type")

def deliveriesOf (memory : Memory) (endpointId : String) : Dict String Fields :=
  (memory.webhookDeliveries.get endpointId).getD []

/-- The endpoint has a delivery of the event. -/
def delivered (memory : Memory) (event : Fields) (endpointId : String) : Bool :=
  (deliveriesOf memory endpointId).any fun p =>
    ((p.2.get "event_id").getD .null).equal ((event.get "event_id").getD .null)

/-- The delivery that is created for an event. -/
def delivery (run event : Fields) : Fields :=
  let occurredAt := (event.get "occurred_at").getD .null
  [("tenant_id", (run.get "tenant_id").getD .null), ("event_id", (event.get "event_id").getD .null),
    ("event_type", (event.get "type").getD .null), ("run_id", (event.get "run_id").getD .null),
    ("status", .str "PENDING"), ("attempt_count", .int 0), ("first_attempt_at", .null),
    ("next_attempt_at", occurredAt), ("last_response_status", .null), ("last_problem", .null),
    ("created_at", occurredAt), ("delivered_at", .null), ("exhausted_at", .null),
    ("redeliver_until", .null)]

/-- The loop of `_append_webhook_deliveries_locked`. -/
def deliver (run event : Fields) : List String → StoreM Unit
  | [] => pure ()
  | endpointId :: rest => do
    let memory ← get
    match subscribed memory run event endpointId with
    | .error fault => raise fault
    | .ok false => deliver run event rest
    | .ok true => do
      modify (openDeliveries endpointId)
      if delivered memory event endpointId then deliver run event rest
      else do
        let _ ← insertLocked (.webhookDeliveries endpointId) (delivery run event) "delivery_id" "whd"
          "webhook_delivery" [("webhook_endpoint_id", .str endpointId)]
        deliver run event rest

/-- `_append_webhook_deliveries_locked`. -/
def appendWebhookDeliveriesLocked (o : SetOrder) (runId : String) (event : Fields) : StoreM Unit := do
  let memory ← get
  let run := (memory.runs.get runId).getD []
  let endpointIds ← check (selectedEndpointIds o run)
  deliver run event endpointIds

/-! ### The compound operations -/

/-- An event with its deliveries, if it is new. -/
def recordEvent (o : SetOrder) (runId : String) (value : Value) : StoreM Fields := do
  let (event, created) ← appendEventLocked runId value
  if created then do
    appendWebhookDeliveriesLocked o runId event
    pure event
  else pure event

def appendEvent (o : SetOrder) (runId : String) (value : Value) : StoreM Fields :=
  recordEvent o runId value

/-- An event that carries the revision of its run. -/
def recordRevised (o : SetOrder) (runId : String) (run : Fields) (value : Value) : StoreM Fields := do
  let event ← check (mapping "event" value)
  recordEvent o runId (.dict (event.set "run_revision" ((run.get "run_revision").getD .null)))

def mutateRunWithEvent (o : SetOrder) (runId : String) (updates event : Value)
    (expectedRevision : Option ℤ) (bumpRevision : Bool) : StoreM (Fields × Fields) := do
  let (current, revision) ← requireRevision runId expectedRevision
  let changes ← check (mapping "run updates" updates)
  let run := patched current changes (if bumpRevision then some revision else none)
  modify (putRun runId run)
  let stored ← recordRevised o runId run event
  let memory ← get
  pure ((memory.runs.get runId).getD [], stored)

/-- The loop of `finalize_run_with_result` over its events. -/
def recordAll (o : SetOrder) (runId : String) (run : Fields) : List Value → StoreM (List Fields)
  | [] => pure []
  | value :: rest => do
    let event ← recordRevised o runId run value
    let events ← recordAll o runId run rest
    pure (event :: events)

def finalizeRunWithResult (o : SetOrder) (runId : String) (result runUpdates : Value) (events : List Value)
    (expectedRevision : Option ℤ) : StoreM (Fields × Fields × List Fields) := do
  let (current, revision) ← requireRevision runId expectedRevision
  let stored ← storedResult runId result
  modify (putResult runId stored)
  let changes ← check (runChanges runId runUpdates)
  let run := patched current changes (some revision)
  modify (putRun runId run)
  let storedEvents ← recordAll o runId run events
  let memory ← get
  pure ((memory.runs.get runId).getD [], stored, storedEvents)

end AutomlApi.Store
