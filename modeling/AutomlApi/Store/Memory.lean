import AutomlApi.Library.Act
import AutomlApi.Library.Integers
import AutomlApi.Store.Value

/-! The in-memory store: its collections, and the operations that create and update
one resource. Every operation checks its arguments and then writes; what it has
written when it raises stays written. -/

namespace AutomlApi.Store

open Act (get modify raise check)

/-- What the operations raise; `disk` is a failure to write the checkpoint. -/
inductive Fault where
  | value (message : String)
  | type (message : String)
  | key (key : String)
  | attribute
  | overflow
  | notFound (resource id : String)
  | alreadyExists (resource id : String)
  | revisionConflict (expected current : ℤ)
  | idempotencyConflict (operation key requestFingerprint existingFingerprint : String)
  | disk
  deriving DecidableEq

structure StoredResponse where
  statusCode : ℤ
  body : Value
  headers : Fields

structure IdempotencyRecord where
  requestFingerprint : String
  response : Option StoredResponse

/-- The state of `InMemoryStore`, less the conditions that wake up readers. -/
structure Memory where
  idCounters : Dict String ℕ
  datasets : Dict String Fields
  datasetVersions : Dict String Fields
  runs : Dict String Fields
  events : Dict String (List Fields)
  eventIds : Dict String (Dict String Fields)
  outputs : Dict String (Dict String Fields)
  decisionPackets : Dict String (Dict String Fields)
  commands : Dict String Fields
  results : Dict String Fields
  artifacts : Dict String Fields
  approvals : Dict String (Dict String Fields)
  models : Dict String Fields
  webhookEndpoints : Dict String Fields
  webhookDeliveries : Dict String (Dict String Fields)
  deletions : Dict String Fields
  idempotency : Dict (String × String) IdempotencyRecord

def Memory.empty : Memory :=
  ⟨[], [], [], [], [], [], [], [], [], [], [], [], [], [], [], [], []⟩

/-- A program of the store. -/
abbrev StoreM := Act Memory Fault

/-! ### Values -/

/-- `_mapping`: a deep copy of a mapping. -/
def mapping (name : String) : Value → Except Fault Fields
  | .dict fields => if Value.copyableFields fields then .ok fields else .error (.type "cannot pickle")
  | _ => .error (.type (name ++ " must be a mapping"))

/-- `value.get(key, default)` on an argument that may be no mapping. -/
def argument (key : String) (default : Value) : Value → Except Fault Value
  | .dict fields => .ok ((Dict.get fields key).getD default)
  | _ => .error .attribute

/-- `int(value)`; a float is cut off towards zero. -/
def toInt : Value → Except Fault ℤ
  | .int i => .ok i
  | .bool b => .ok (if b then 1 else 0)
  | .float (.finite x) => .ok (x.num.tdiv x.den)
  | .float (.infinity _) => .error .overflow
  | .float (.nan _) => .error (.value "cannot convert float NaN to integer")
  | .str s => (Integers.int s.toList).elim (.error (.value "invalid literal for int()")) .ok
  | _ => .error (.type "int() argument must be a number")

example : toInt (.str " 1 ") = .ok 1 := by decide

/-- `value or []`, when the value counts as false. -/
def falsy : Value → Bool
  | .null => true
  | .bool b => !b
  | .int i => i = 0
  | .float x => x = .finite 0
  | .str s => s = ""
  | .list items => items.isEmpty
  | .dict fields => fields.isEmpty
  | .adapted .. | .object .. => false

/-- `f"{prefix}_{value:012d}"`. -/
def formatId (kind : String) (value : ℕ) : String :=
  let digits := toString value
  kind ++ "_" ++ String.ofList (List.replicate (12 - digits.length) '0') ++ digits

/-- `_new_id_locked`. -/
def newIdLocked (kind : String) : StoreM String := do
  let memory ← get
  let value := (memory.idCounters.get kind).getD 0 + 1
  modify fun memory => { memory with idCounters := memory.idCounters.set kind value }
  pure (formatId kind value)

/-- `_ID_PREFIXES`. -/
def idPrefixes : Dict String String :=
  [("dataset", "ds"), ("datasets", "ds"), ("ds", "ds"), ("dataset_version", "dsv"),
    ("dataset_versions", "dsv"), ("dsv", "dsv"), ("run", "run"), ("runs", "run"), ("event", "evt"),
    ("events", "evt"), ("evt", "evt"), ("output", "out"), ("outputs", "out"), ("out", "out"),
    ("decision_packet", "dp"), ("decision_packets", "dp"), ("dp", "dp"), ("wait_set", "ws"),
    ("ws", "ws"), ("command", "cmd"), ("commands", "cmd"), ("cmd", "cmd"), ("result", "res"),
    ("result_manifest", "res"), ("res", "res"), ("artifact", "art"), ("artifacts", "art"),
    ("art", "art"), ("experiment", "exp"), ("exp", "exp"), ("model", "mdl"), ("mdl", "mdl"),
    ("approval", "apr"), ("apr", "apr"), ("webhook_endpoint", "wh"), ("webhook_endpoints", "wh"),
    ("wh", "wh"), ("webhook_delivery", "whd"), ("webhook_deliveries", "whd"), ("whd", "whd"),
    ("deletion", "del"), ("deletions", "del"), ("del", "del"), ("redelivery", "redel"),
    ("redeliveries", "redel"), ("redel", "redel")]

/-- `kind.strip().lower().rstrip("_")`, on the characters of ASCII. -/
def normalizedKind (kind : String) : String :=
  let lower := (kind.toList.dropWhile Char.isWhitespace).reverse.dropWhile Char.isWhitespace
  String.ofList ((lower.map Char.toLower).dropWhile (· = '_')).reverse

/-- `new_id`. -/
def newId (kind : String) : StoreM String := do
  let normalized := normalizedKind kind
  let resolved := (idPrefixes.get normalized).getD normalized
  let body := resolved.toList.filter (· ≠ '-')
  if body.isEmpty ∨ ¬ body.all Char.isAlphanum then
    raise (.value "invalid resource ID kind")
  else newIdLocked resolved

/-! ### Collections -/

/-- One dictionary of resources inside the store. -/
structure Collection where
  get : Memory → Dict String Fields
  put : Memory → Dict String Fields → Memory

namespace Collection

def datasets : Collection := ⟨Memory.datasets, fun m d => { m with datasets := d }⟩
def datasetVersions : Collection := ⟨Memory.datasetVersions, fun m d => { m with datasetVersions := d }⟩
def runs : Collection := ⟨Memory.runs, fun m d => { m with runs := d }⟩
def commands : Collection := ⟨Memory.commands, fun m d => { m with commands := d }⟩
def artifacts : Collection := ⟨Memory.artifacts, fun m d => { m with artifacts := d }⟩
def models : Collection := ⟨Memory.models, fun m d => { m with models := d }⟩
def webhookEndpoints : Collection := ⟨Memory.webhookEndpoints, fun m d => { m with webhookEndpoints := d }⟩
def deletions : Collection := ⟨Memory.deletions, fun m d => { m with deletions := d }⟩

def outputs (runId : String) : Collection :=
  ⟨fun m => (m.outputs.get runId).getD [], fun m d => { m with outputs := m.outputs.set runId d }⟩

def decisionPackets (runId : String) : Collection :=
  ⟨fun m => (m.decisionPackets.get runId).getD [],
    fun m d => { m with decisionPackets := m.decisionPackets.set runId d }⟩

def approvals (runId : String) : Collection :=
  ⟨fun m => (m.approvals.get runId).getD [], fun m d => { m with approvals := m.approvals.set runId d }⟩

def webhookDeliveries (endpointId : String) : Collection :=
  ⟨fun m => (m.webhookDeliveries.get endpointId).getD [],
    fun m d => { m with webhookDeliveries := m.webhookDeliveries.set endpointId d }⟩

end Collection

/-- The loop of `_create_locked` over its fixed fields. -/
def fixFields (resource : String) : Fields → Fields → Except Fault Fields
  | [], item => .ok item
  | (field, fixed) :: rest, item =>
    match item.get field with
    | none | some .null => fixFields resource rest (item.set field fixed)
    | some supplied =>
      if supplied.equal fixed then fixFields resource rest (item.set field fixed)
      else .error (.value (resource ++ "." ++ field ++ " does not match its parent"))

/-- The id that a new item carries, or a fresh one. -/
def withId (idField kind : String) (item : Fields) : StoreM Fields :=
  match item.get idField with
  | none | some .null => do
    let id ← newIdLocked kind
    pure (item.set idField (.str id))
  | some _ => pure item

/-- The check of an id. -/
def requireId (idField resource : String) (item : Fields) : Except Fault String :=
  match (item.get idField).bind Value.nonEmptyString? with
  | some id => .ok id
  | none => .error (.value (resource ++ "." ++ idField ++ " must be a non-empty string"))

/-- `_create_locked` on a copy of its argument. -/
def insertLocked (c : Collection) (item : Fields) (idField kind resource : String) (fixed : Fields) :
    StoreM Fields := do
  let item ← check (fixFields resource fixed item)
  let item ← withId idField kind item
  let id ← check (requireId idField resource item)
  let memory ← get
  if (c.get memory).has id then raise (.alreadyExists resource id)
  else do
    modify fun memory => c.put memory ((c.get memory).set id item)
    pure item

/-- `_create_locked`. -/
def createLocked (c : Collection) (value : Value) (idField kind resource : String) (fixed : Fields) :
    StoreM Fields := do
  let item ← check (mapping resource value)
  insertLocked c item idField kind resource fixed

/-- `_update_locked`. -/
def updateLocked (c : Collection) (id : String) (updates : Value) (idField resource : String) :
    StoreM Fields := do
  let memory ← get
  match (c.get memory).get id with
  | none => raise (.notFound resource id)
  | some current => do
    let changes ← check (mapping (resource ++ " updates") updates)
    if ¬ ((changes.get idField).getD (.str id)).equal (.str id) then
      raise (.value (resource ++ "." ++ idField ++ " cannot be changed"))
    else do
      let updated := current.update (changes.erase idField)
      modify fun memory => c.put memory ((c.get memory).set id updated)
      pure updated

/-! ### Resources -/

def requireRun (runId : String) : StoreM Unit := do
  let memory ← get
  if memory.runs.has runId then pure () else raise (.notFound "run" runId)

def createDataset (value : Value) : StoreM Fields :=
  createLocked .datasets value "dataset_id" "ds" "dataset" []

def updateDataset (datasetId : String) (updates : Value) : StoreM Fields :=
  updateLocked .datasets datasetId updates "dataset_id" "dataset"

def createDatasetVersion (datasetId : String) (value : Value) : StoreM Fields := do
  let memory ← get
  if memory.datasets.has datasetId then
    createLocked .datasetVersions value "dataset_version_id" "dsv" "dataset_version"
      [("dataset_id", .str datasetId)]
  else raise (.notFound "dataset" datasetId)

/-- The first resource of `create_dataset_with_version` is taken back when the second
one raises. -/
def createDatasetWithVersion (dataset version : Value) : StoreM (Fields × Fields) := do
  let created ← createLocked .datasets dataset "dataset_id" "ds" "dataset" []
  let datasetId := ((created.get "dataset_id").bind Value.nonEmptyString?).getD ""
  let createdVersion ← Act.onError
    (createLocked .datasetVersions version "dataset_version_id" "dsv" "dataset_version"
      [("dataset_id", .str datasetId)])
    fun memory => { memory with datasets := memory.datasets.erase datasetId }
  pure (created, createdVersion)

def updateDatasetVersion (versionId : String) (updates : Value) : StoreM Fields := do
  let memory ← get
  match memory.datasetVersions.get versionId with
  | none => raise (.notFound "dataset_version" versionId)
  | some current =>
    match current.get "dataset_id" with
    | none => raise (.key "dataset_id")
    | some datasetId => do
      let supplied ← check (argument "dataset_id" datasetId updates)
      if supplied.equal datasetId then
        updateLocked .datasetVersions versionId updates "dataset_version_id" "dataset_version"
      else raise (.value "dataset_version.dataset_id cannot be changed")

def createRun (value : Value) : StoreM Fields := do
  let item ← check (mapping "run" value)
  let item := (item.setDefault "run_revision" (.int 1)).setDefault "snapshot_seq" (.int 0)
  let created ← createLocked .runs (.dict item) "run_id" "run" "run" []
  let runId := ((created.get "run_id").bind Value.nonEmptyString?).getD ""
  modify fun memory =>
    { memory with
      events := memory.events.set runId []
      eventIds := memory.eventIds.set runId []
      outputs := memory.outputs.set runId []
      decisionPackets := memory.decisionPackets.set runId []
      approvals := memory.approvals.set runId [] }
  pure created

/-- The run and its revision, which is the one that the caller expects if it expects
one. -/
def currentRevision (runId : String) (expectedRevision : Option ℤ) (memory : Memory) :
    Except Fault (Fields × ℤ) :=
  match memory.runs.get runId with
  | none => .error (.notFound "run" runId)
  | some current =>
    match toInt ((current.get "run_revision").getD (.int 1)) with
    | .error fault => .error fault
    | .ok revision =>
      match expectedRevision with
      | none => .ok (current, revision)
      | some expected =>
        if expected = revision then .ok (current, revision)
        else .error (.revisionConflict expected revision)

/-- The checks that every update of a run starts with. -/
def requireRevision (runId : String) (expectedRevision : Option ℤ) : StoreM (Fields × ℤ) := do
  let memory ← get
  check (currentRevision runId expectedRevision memory)

/-- The updates of a run that may not name another run. -/
def runChanges (runId : String) (updates : Value) : Except Fault Fields :=
  match mapping "run updates" updates with
  | .error fault => .error fault
  | .ok changes =>
    if ((changes.get "run_id").getD (.str runId)).equal (.str runId) then .ok changes
    else .error (.value "run.run_id cannot be changed")

/-- The run after a patch, which cannot set its id, its revision or its last sequence
number. -/
def patched (current changes : Fields) (revision : Option ℤ) : Fields :=
  let updated := current.update (((changes.erase "run_id").erase "run_revision").erase "snapshot_seq")
  match revision with
  | some revision => updated.set "run_revision" (.int (revision + 1))
  | none => updated

/-- Writes the run. -/
def putRun (runId : String) (run : Fields) (memory : Memory) : Memory :=
  { memory with runs := memory.runs.set runId run }

def updateRun (runId : String) (updates : Value) (expectedRevision : Option ℤ) (bumpRevision : Bool) :
    StoreM Fields := do
  let (current, revision) ← requireRevision runId expectedRevision
  let changes ← check (runChanges runId updates)
  let run := patched current changes (if bumpRevision then some revision else none)
  modify (putRun runId run)
  pure run

/-- `self._collection[run_id]` raises a `KeyError` where the run has no dictionary. -/
def requireKey (key : String) (d : Memory → Dict String (Dict String Fields)) : StoreM Unit := do
  let memory ← get
  if (d memory).has key then pure () else raise (.key key)

def createOutput (runId : String) (value : Value) : StoreM Fields := do
  requireRun runId
  requireKey runId Memory.outputs
  createLocked (.outputs runId) value "output_id" "out" "output" [("run_id", .str runId)]

def createDecisionPacket (runId : String) (value : Value) : StoreM Fields := do
  requireRun runId
  let item ← check (mapping "decision_packet" value)
  let waitSetId ← newIdLocked "ws"
  requireKey runId Memory.decisionPackets
  createLocked (.decisionPackets runId) (.dict (item.setDefault "wait_set_id" (.str waitSetId)))
    "decision_packet_id" "dp" "decision_packet" [("run_id", .str runId)]

def updateDecisionPacket (runId packetId : String) (updates : Value) : StoreM Fields := do
  requireRun runId
  requireKey runId Memory.decisionPackets
  let memory ← get
  match ((Collection.decisionPackets runId).get memory).get packetId with
  | none => raise (.notFound "decision_packet" packetId)
  | some current => do
    let supplied ← check (argument "run_id" (.str runId) updates)
    if ¬ supplied.equal (.str runId) then raise (.value "decision_packet.run_id cannot be changed")
    else do
      let waitSet := (current.get "wait_set_id").getD .null
      let suppliedWaitSet ← check (argument "wait_set_id" waitSet updates)
      if ¬ suppliedWaitSet.equal waitSet then raise (.value "decision_packet.wait_set_id cannot be changed")
      else updateLocked (.decisionPackets runId) packetId updates "decision_packet_id" "decision_packet"

/-- A run id of the dictionary of runs; a value that has no hash raises a `TypeError`. -/
def requireRunOf (item : Fields) : StoreM Unit := do
  let memory ← get
  match item.get "run_id" with
  | none | some .null => pure ()
  | some (.str runId) => if memory.runs.has runId then pure () else raise (.notFound "run" runId)
  | some (.list _) | some (.dict _) => raise (.type "unhashable type")
  | some _ => raise (.notFound "run" "")

/-- The resources that may name a run: commands, artifacts and models. -/
def createForRun (c : Collection) (value : Value) (idField kind resource : String) : StoreM Fields := do
  let item ← check (mapping resource value)
  requireRunOf item
  createLocked c (.dict item) idField kind resource []

def createCommand (value : Value) : StoreM Fields :=
  createForRun .commands value "command_id" "cmd" "command"

def updateCommand (commandId : String) (updates : Value) : StoreM Fields :=
  updateLocked .commands commandId updates "command_id" "command"

def createArtifact (value : Value) : StoreM Fields :=
  createForRun .artifacts value "artifact_id" "art" "artifact"

def updateArtifact (artifactId : String) (updates : Value) : StoreM Fields :=
  updateLocked .artifacts artifactId updates "artifact_id" "artifact"

def createModel (value : Value) : StoreM Fields :=
  createForRun .models value "model_id" "mdl" "model"

/-- `self._approvals.setdefault(run_id, {})`. -/
def openApprovals (runId : String) (memory : Memory) : Memory :=
  { memory with approvals := memory.approvals.setDefault runId [] }

def createApproval (runId : String) (value : Value) : StoreM Fields := do
  requireRun runId
  modify (openApprovals runId)
  createLocked (.approvals runId) value "approval_id" "apr" "approval" [("run_id", .str runId)]

def updateApproval (runId approvalId : String) (updates : Value) : StoreM Fields := do
  requireRun runId
  let supplied ← check (argument "run_id" (.str runId) updates)
  if ¬ supplied.equal (.str runId) then raise (.value "approval.run_id cannot be changed")
  else do
    modify (openApprovals runId)
    updateLocked (.approvals runId) approvalId updates "approval_id" "approval"

def createWebhookEndpoint (value : Value) : StoreM Fields :=
  createLocked .webhookEndpoints value "webhook_endpoint_id" "wh" "webhook_endpoint" []

def updateWebhookEndpoint (endpointId : String) (updates : Value) : StoreM Fields :=
  updateLocked .webhookEndpoints endpointId updates "webhook_endpoint_id" "webhook_endpoint"

def requireEndpoint (endpointId : String) : StoreM Unit := do
  let memory ← get
  if memory.webhookEndpoints.has endpointId then pure ()
  else raise (.notFound "webhook_endpoint" endpointId)

/-- `self._webhook_deliveries.setdefault(endpoint_id, {})`. -/
def openDeliveries (endpointId : String) (memory : Memory) : Memory :=
  { memory with webhookDeliveries := memory.webhookDeliveries.setDefault endpointId [] }

def createWebhookDelivery (endpointId : String) (value : Value) : StoreM Fields := do
  requireEndpoint endpointId
  modify (openDeliveries endpointId)
  createLocked (.webhookDeliveries endpointId) value "delivery_id" "whd" "webhook_delivery"
    [("webhook_endpoint_id", .str endpointId)]

def updateWebhookDelivery (endpointId deliveryId : String) (updates : Value) : StoreM Fields := do
  requireEndpoint endpointId
  let supplied ← check (argument "webhook_endpoint_id" (.str endpointId) updates)
  if ¬ supplied.equal (.str endpointId) then
    raise (.value "webhook_delivery.webhook_endpoint_id cannot be changed")
  else do
    modify (openDeliveries endpointId)
    updateLocked (.webhookDeliveries endpointId) deliveryId updates "delivery_id" "webhook_delivery"

def createDeletion (value : Value) : StoreM Fields :=
  createLocked .deletions value "deletion_id" "del" "deletion" []

def updateDeletion (deletionId : String) (updates : Value) : StoreM Fields :=
  updateLocked .deletions deletionId updates "deletion_id" "deletion"

/-- A result that may take the place of the one that is there. -/
def replaceable (runId : String) (result : Fields) (memory : Memory) : Except Fault Unit :=
  match memory.results.get runId with
  | none => .ok ()
  | some existing =>
    if (Value.dict existing).equal (.dict result) then .ok () else .error (.alreadyExists "result" runId)

/-- The result that `set_result` and `finalize_run_with_result` store. -/
def storedResult (runId : String) (value : Value) : StoreM Fields := do
  let result ← check (mapping "result" value)
  let result ← check (match result.get "run_id" with
    | none | some .null => .ok (result.set "run_id" (.str runId))
    | some supplied =>
      if supplied.equal (.str runId) then .ok (result.set "run_id" (.str runId))
      else .error (.value "result.run_id does not match its parent run"))
  let manifestId ← newIdLocked "res"
  let result := result.setDefault "result_manifest_id" (.str manifestId)
  let memory ← get
  check (replaceable runId result memory)
  pure result

/-- Writes the result. -/
def putResult (runId : String) (result : Fields) (memory : Memory) : Memory :=
  { memory with results := memory.results.set runId result }

def setResult (runId : String) (value : Value) : StoreM Fields := do
  requireRun runId
  let result ← storedResult runId value
  modify (putResult runId result)
  pure result

/-! ### Idempotency records -/

def idempotencyIdentity (operation key fingerprint : String) : Except Fault (String × String) :=
  if operation = "" then .error (.value "operation must not be empty")
  else if key = "" then .error (.value "idempotency key must not be empty")
  else if fingerprint = "" then .error (.value "request fingerprint must not be empty")
  else .ok (operation, key)

inductive IdempotencyState where
  | new | inProgress | replay | conflict
  deriving DecidableEq

/-- `_idempotency_decision`, less the response that it hands out. -/
def idempotencyDecision (record : IdempotencyRecord) (fingerprint : String) : IdempotencyState :=
  if record.requestFingerprint ≠ fingerprint then .conflict
  else if record.response.isNone then .inProgress
  else .replay

/-- Writes a record. -/
def putRecord (identity : String × String) (record : IdempotencyRecord) (memory : Memory) : Memory :=
  { memory with idempotency := memory.idempotency.set identity record }

def beginIdempotentRequest (operation key fingerprint : String) : StoreM IdempotencyState := do
  let identity ← check (idempotencyIdentity operation key fingerprint)
  let memory ← get
  match memory.idempotency.get identity with
  | none => do
    modify (putRecord identity ⟨fingerprint, none⟩)
    pure .new
  | some record => pure (idempotencyDecision record fingerprint)

/-- The deep copies of the body and of the headers of a response. -/
def storedResponse (statusCode : ℤ) (body : Value) (headers : Fields) : Except Fault StoredResponse :=
  if body.copyable ∧ Value.copyableFields headers then .ok ⟨statusCode, body, headers⟩
  else .error (.type "cannot pickle")

def completeIdempotentRequest (operation key fingerprint : String) (statusCode : ℤ) (body : Value)
    (headers : Fields) : StoreM StoredResponse := do
  let identity ← check (idempotencyIdentity operation key fingerprint)
  let memory ← get
  let record := (memory.idempotency.get identity).getD ⟨fingerprint, none⟩
  -- a record that is missing is stored before the response is copied
  modify (putRecord identity record)
  if record.requestFingerprint ≠ fingerprint then
    raise (.idempotencyConflict operation key fingerprint record.requestFingerprint)
  else
    match record.response with
    | some response => pure response
    | none => do
      let response ← check (storedResponse statusCode body headers)
      modify (putRecord identity ⟨record.requestFingerprint, some response⟩)
      pure response

def abortIdempotentRequest (operation key fingerprint : String) : StoreM Bool := do
  let identity ← check (idempotencyIdentity operation key fingerprint)
  let memory ← get
  match memory.idempotency.get identity with
  | none => pure false
  | some record =>
    if record.requestFingerprint ≠ fingerprint then
      raise (.idempotencyConflict operation key fingerprint record.requestFingerprint)
    else if record.response.isSome then pure false
    else do
      modify fun memory => { memory with idempotency := memory.idempotency.erase identity }
      pure true

end AutomlApi.Store
