import Mathlib.Data.String.Basic
import AutomlApi.Jobs.History
import AutomlApi.Store.Events

/-! The durable store. Every mutation of the memory is followed by a checkpoint of the
whole of it; a checkpoint that fails takes the memory back to where it was, a
method that raises does not. The jobs have their own table. -/

namespace AutomlApi.Store

open Jobs (Table Readings)

/-! ### Checkpoints -/

/-- The id under which an event is indexed. -/
def eventId (event : Fields) : String := ((event.get "event_id").bind Value.nonEmptyString?).getD ""

/-- The index that `_restore_state` builds of the event logs. -/
def indexed (events : Dict String (List Fields)) : Dict String (Dict String Fields) :=
  events.mapValues fun log => log.foldl (fun ids event => ids.set (eventId event) event) []

/-- `_restore_state` from a snapshot, which holds no index of events. -/
def restore (snapshot : Memory) : Memory :=
  { snapshot with
    approvals := snapshot.runs.foldl (fun approvals run => approvals.setDefault run.1 []) snapshot.approvals
    eventIds := indexed snapshot.events }

def encodeRecord (record : IdempotencyRecord) : Option IdempotencyRecord :=
  match record.response with
  | none => some record
  | some response => do
    let body ← response.body.encode
    let headers ← Value.encodeFields response.headers
    some { record with response := some { response with body := body, headers := headers } }

/-- What `json.loads` reads back from the payload of a checkpoint, whose keys are sorted;
nothing where some value of the memory has no JSON form. -/
def serialise (memory : Memory) : Option Memory := do
  let resources : Dict String Fields → Option (Dict String Fields) := Dict.written Value.encodeFields
  let nested : Dict String (Dict String Fields) → Option (Dict String (Dict String Fields)) := Dict.written resources
  some
    { idCounters := memory.idCounters.sortKeys
      datasets := ← resources memory.datasets
      datasetVersions := ← resources memory.datasetVersions
      runs := ← resources memory.runs
      events := ← memory.events.written fun log => log.mapM Value.encodeFields
      eventIds := []
      outputs := ← nested memory.outputs
      decisionPackets := ← nested memory.decisionPackets
      commands := ← resources memory.commands
      results := ← resources memory.results
      artifacts := ← resources memory.artifacts
      approvals := ← nested memory.approvals
      models := ← resources memory.models
      webhookEndpoints := ← resources memory.webhookEndpoints
      webhookDeliveries := ← nested memory.webhookDeliveries
      deletions := ← resources memory.deletions
      -- these are a list, in their order
      idempotency := ← memory.idempotency.traverse encodeRecord }

/-! ### The operations of the store -/

structure SqliteStore where
  memory : Memory
  checkpoint : Memory
  jobs : Table String

/-- The mutating operations of `SqliteStore`. -/
inductive Op where
  | newId (kind : String)
  | createDataset (value : Value)
  | updateDataset (datasetId : String) (updates : Value)
  | createDatasetVersion (datasetId : String) (value : Value)
  | createDatasetWithVersion (dataset version : Value)
  | updateDatasetVersion (versionId : String) (updates : Value)
  | createRun (value : Value)
  | updateRun (runId : String) (updates : Value) (expectedRevision : Option ℤ) (bumpRevision : Bool)
  | appendEvent (runId : String) (value : Value)
  | mutateRunWithEvent (runId : String) (updates event : Value) (expectedRevision : Option ℤ)
      (bumpRevision : Bool)
  | finalizeRunWithResult (runId : String) (result runUpdates : Value) (events : List Value)
      (expectedRevision : Option ℤ)
  | createOutput (runId : String) (value : Value)
  | createDecisionPacket (runId : String) (value : Value)
  | updateDecisionPacket (runId packetId : String) (updates : Value)
  | createCommand (value : Value)
  | updateCommand (commandId : String) (updates : Value)
  | setResult (runId : String) (value : Value)
  | createArtifact (value : Value)
  | updateArtifact (artifactId : String) (updates : Value)
  | createApproval (runId : String) (value : Value)
  | updateApproval (runId approvalId : String) (updates : Value)
  | createModel (value : Value)
  | createWebhookEndpoint (value : Value)
  | updateWebhookEndpoint (endpointId : String) (updates : Value)
  | createWebhookDelivery (endpointId : String) (value : Value)
  | updateWebhookDelivery (endpointId deliveryId : String) (updates : Value)
  | createDeletion (value : Value)
  | updateDeletion (deletionId : String) (updates : Value)
  | beginIdempotentRequest (operation key fingerprint : String)
  | completeIdempotentRequest (operation key fingerprint : String) (statusCode : ℤ) (body : Value)
      (headers : Fields)
  | abortIdempotentRequest (operation key fingerprint : String)
  | reset
  | job (r : Readings) (op : Jobs.Op String)

/-- The method of the in-memory store that an operation calls, without its reply. -/
def Op.method (o : SetOrder) : Op → StoreM Unit
  | newId kind => void (Store.newId kind)
  | createDataset value => void (Store.createDataset value)
  | updateDataset datasetId updates => void (Store.updateDataset datasetId updates)
  | createDatasetVersion datasetId value => void (Store.createDatasetVersion datasetId value)
  | createDatasetWithVersion dataset version => void (Store.createDatasetWithVersion dataset version)
  | updateDatasetVersion versionId updates => void (Store.updateDatasetVersion versionId updates)
  | createRun value => void (Store.createRun value)
  | updateRun runId updates expected bump => void (Store.updateRun runId updates expected bump)
  | appendEvent runId value => void (Store.appendEvent o runId value)
  | mutateRunWithEvent runId updates event expected bump =>
    void (Store.mutateRunWithEvent o runId updates event expected bump)
  | finalizeRunWithResult runId result updates events expected =>
    void (Store.finalizeRunWithResult o runId result updates events expected)
  | createOutput runId value => void (Store.createOutput runId value)
  | createDecisionPacket runId value => void (Store.createDecisionPacket runId value)
  | updateDecisionPacket runId packetId updates => void (Store.updateDecisionPacket runId packetId updates)
  | createCommand value => void (Store.createCommand value)
  | updateCommand commandId updates => void (Store.updateCommand commandId updates)
  | setResult runId value => void (Store.setResult runId value)
  | createArtifact value => void (Store.createArtifact value)
  | updateArtifact artifactId updates => void (Store.updateArtifact artifactId updates)
  | createApproval runId value => void (Store.createApproval runId value)
  | updateApproval runId approvalId updates => void (Store.updateApproval runId approvalId updates)
  | createModel value => void (Store.createModel value)
  | createWebhookEndpoint value => void (Store.createWebhookEndpoint value)
  | updateWebhookEndpoint endpointId updates => void (Store.updateWebhookEndpoint endpointId updates)
  | createWebhookDelivery endpointId value => void (Store.createWebhookDelivery endpointId value)
  | updateWebhookDelivery endpointId deliveryId updates =>
    void (Store.updateWebhookDelivery endpointId deliveryId updates)
  | createDeletion value => void (Store.createDeletion value)
  | updateDeletion deletionId updates => void (Store.updateDeletion deletionId updates)
  | beginIdempotentRequest operation key fingerprint =>
    void (Store.beginIdempotentRequest operation key fingerprint)
  | completeIdempotentRequest operation key fingerprint statusCode body headers =>
    void (Store.completeIdempotentRequest operation key fingerprint statusCode body headers)
  | abortIdempotentRequest operation key fingerprint =>
    void (Store.abortIdempotentRequest operation key fingerprint)
  | reset => Act.modify fun _ => .empty
  | job .. => pure ()
where
  /-- A method without its reply. -/
  void {α : Type} (m : StoreM α) : StoreM Unit := do
    let _ ← m
    pure ()

/-- What a call raises. -/
inductive Raised where
  | store (fault : Fault)
  | job (fault : Jobs.Fault String)

/-- `_durable_mutation`; `disk` is whether the transaction of the checkpoint commits. -/
def durableMutation (m : StoreM Unit) (disk : Bool) (s : SqliteStore) : Except Raised Unit × SqliteStore :=
  match m s.memory with
  | (.error fault, memory) => (.error (.store fault), { s with memory := memory })
  | (.ok (), memory) =>
    match serialise memory with
    | none => (.error (.store (.type "is not JSON serializable")), { s with memory := restore s.memory })
    | some snapshot =>
      if disk then (.ok (), { s with memory := memory, checkpoint := snapshot })
      else (.error (.store .disk), { s with memory := restore s.memory })

/-- The creation of a job looks its run up in the memory. -/
def knowing (memory : Memory) : Jobs.Op String → Jobs.Op String
  | .create _ runId step fields attempts epoch => .create memory.runs.has runId step fields attempts epoch
  | op => op

/-- A call of one operation. -/
def Op.apply (o : SetOrder) (disk : Bool) (s : SqliteStore) : Op → Except Raised Unit × SqliteStore
  | reset =>
    match durableMutation (Op.method o reset) disk s with
    | (.ok (), s') => (.ok (), { s' with jobs := .empty })
    | raised => raised
  | job r op =>
    if disk then
      match (knowing s.memory op).apply s.jobs r with
      | (jobs, .ok _) => (.ok (), { s with jobs := jobs })
      | (jobs, .error fault) => (.error (.job fault), { s with jobs := jobs })
    else (.error (.store .disk), s)
  | op => durableMutation (op.method o) disk s

end AutomlApi.Store
