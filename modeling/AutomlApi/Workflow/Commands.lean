import AutomlApi.Packets.Questions
import AutomlApi.Workflow.Steps

/-! What a request does between two points where it yields: datasets, runs, the answer
of a decision packet, the control commands, the decision of an approval, and the
deletion of a dataset. The requests that take the lock do all they do under it.
Limits, backends, webhooks and the rights of the caller are checked before anything
is written; they come in as whether they let the request through. -/

namespace AutomlApi.Workflow

open Durable (read write raise check)
open Jobs (Job Readings Time)
open Store (Value Fields)

def problem (status : ℕ) (code : String) : Fault := .problem ⟨status, code⟩

/-- `_owned`. -/
def owned {α : Type} (tenant : α → String) (tenantId : String) : Option α → Except Fault α
  | some resource => if tenant resource = tenantId then .ok resource else .error (problem 404 "not_found")
  | none => .error (problem 404 "not_found")

/-- A check that answers with a problem. -/
def require (ok : Prop) [Decidable ok] (status : ℕ) (code : String) : Except Fault Unit :=
  if ok then .ok () else .error (problem status code)

def ownedRun (tenantId : String) (runId : ℕ) : Prog RunData := do
  let w ← read
  check (owned (fun d : RunData => d.run.tenantId) tenantId (w.runs.get runId))

/-! ### Datasets and runs -/

/-- `create_dataset`. -/
def createDataset (tenantId : String) : Prog Unit := do
  let uploadId ← newId
  write (.dataset ⟨tenantId, false⟩ ⟨0, tenantId, .uploading, 1, uploadId, none, false⟩)

/-- What a request for a run says. -/
structure RunRequest where
  datasetVersionId : ℕ
  objective : Inputs
  requiresApproval : Bool

/-- The run that a request creates. -/
def RunRequest.run (request : RunRequest) (tenantId : String) : Run where
  tenantId := tenantId
  datasetVersionId := request.datasetVersionId
  phase := .ingest
  status := .queued
  outcome := none
  executionStep := "PROFILE"
  runRevision := 1
  snapshotSeq := 0
  progress := 0
  availableActions := [.pause, .cancel]
  blocking := ⟨[], []⟩
  resolvedInputs := request.objective
  profileColumns := none
  pendingCommandId := none
  taskSpecOutputId := none
  splitManifestOutputId := none
  pendingModelCandidate := none
  requiresApproval := request.requiresApproval

/-- `create_run`; `admitted` is what the limits, the backend and the webhooks say. -/
def createRun (r : Readings) (tenantId : String) (request : RunRequest) (admitted : Except Problem Unit) :
    Prog Unit := do
  let w ← read
  let version ← check (owned DatasetVersion.tenantId tenantId (w.versions.get request.datasetVersionId))
  let _ ← check (require (version.status = .ready ∧ version.blobKey) 409 "dataset_not_ready")
  let _ ← check (admitted.mapError Fault.problem)
  let runId ← newId
  write (.run runId (request.run tenantId))
  createExecutionJob r runId "PROFILE" [("dataset_version_id", .int request.datasetVersionId)]

/-! ### Answers -/

def Question.id : Question → String
  | target _ => "q_target"
  | iid => "q_iid"
  | positiveClass _ => "q_positive_class"

/-- The values of the options. -/
def Question.options : Question → List Value
  | target columns => columns.map .str
  | iid => [.bool true, .bool false]
  | positiveClass classes => classes

/-- The question in its packet, without the texts, which no check reads. -/
def Question.packed (q : Question) : Packets.Question Value where
  questionId := q.id
  prompt := ""
  selectionMode := some .single
  minSelections := some 1
  maxSelections := some 1
  options := q.options.map fun value => { value := value, label := "", consequence := "" }

def listItems : Value → Option (List Value)
  | .list items => some items
  | _ => none

/-- `type(a) is type(b)`, of values of JSON. -/
def sameType : Value → Value → Bool
  | .null, .null | .bool _, .bool _ | .int _, .int _ | .float _, .float _ | .str _, .str _ => true
  | .list _, .list _ | .dict _, .dict _ => true
  | _, _ => false

def answerValues : Packets.Values Value where
  items := listItems
  same a b := sameType a b && a.equal b

/-- `_validate_packet_answers`. Without a problem, the dictionary of the answers is `answers`. -/
def validatePacketAnswers (questions : List Question) (answers : Fields) : Except Fault Unit :=
  match Packets.validatePacketAnswers answerValues (questions.map Question.packed) answers with
  | .ok _ => .ok ()
  | .error refusal => .error (problem refusal.status.toNat refusal.code)

/-- The inputs of the run with the answers. -/
def resolveAnswers (run : Run) (answers : Fields) : Except Fault Inputs := do
  let resolved ←
    match answers.get "q_target" with
    | none => .ok run.resolvedInputs
    | some (.str target) =>
      if target ∈ run.profileColumns.getD [] then
        .ok { run.resolvedInputs with targetColumn := some target }
      else .error (problem 422 "invalid_answer")
    | some _ => .error (problem 422 "invalid_answer")
  let resolved ←
    match answers.get "q_iid" with
    | none => .ok resolved
    | some (.bool true) => .ok { resolved with iidConfirmed := true }
    | some _ => .error (problem 422 "unsupported_split_requirement")
  match answers.get "q_positive_class" with
  | none => .ok resolved
  | some value => .ok { resolved with positiveClass := some value }

/-- An answer to a wait-set; `mayDecide` and `asRecommended` are what the checks of the
caller say before and after the answers are validated. -/
structure AnswerRequest where
  waitSetId : ℕ
  waitSetRevision : ℕ
  answers : Fields
  mayDecide : Except Problem Unit
  asRecommended : Except Problem Unit

/-- The run goes on with an answer. -/
def answered (resolved : Inputs) (commandId : ℕ) : RunPatch :=
  { status := some .queued
    blocking := some ⟨[], []⟩
    availableActions := some [.pause, .cancel]
    resolvedInputs := some resolved
    pendingCommandId := some (some commandId) }

/-- `answer`. -/
def answer (r : Readings) (tenantId : String) (runId : ℕ) (request : AnswerRequest) : Prog Unit := do
  let d ← ownedRun tenantId runId
  match d.packets.find? (·.waitSetId = request.waitSetId) with
  | none => raise (problem 404 "not_found")
  | some packet => do
    let _ ← check (require (packet.waitSetRevision = request.waitSetRevision) 412 "stale_revision")
    let _ ← check (require (packet.status = .opened ∧ d.run.status = .waitingUser) 409 "decision_packet_not_open")
    let _ ← check (request.mayDecide.mapError Fault.problem)
    let _ ← check (validatePacketAnswers packet.questions request.answers)
    let _ ← check (request.asRecommended.mapError Fault.problem)
    let resolved ← check (resolveAnswers d.run request.answers)
    let commandId ← createCommand runId .answer .accepted
    let _ ← change runId (.packetSet packet.decisionPacketId .answered (request.waitSetRevision + 1))
    let _ ← updateRun runId (answered resolved commandId) (some d.run.runRevision) true
    let _ ← onJobs r (.wake runId)
    pure ()

/-! ### Control commands -/

inductive Control where
  | pause | resume | cancel
  deriving DecidableEq

def Control.command : Control → CommandType
  | pause => .pause
  | resume => .resume
  | cancel => .cancel

/-- The checks of `_control`. -/
def Control.check (c : Control) (run : Run) (revision : Option ℕ) : Except Fault Unit := do
  let _ ← require (∀ expected ∈ revision, run.runRevision = expected) 412 "stale_revision"
  let _ ← require (run.status ≠ .terminal) 409 "run_terminal"
  let _ ← require (c.command ∈ run.availableActions) 409 "command_not_available"
  let _ ← require (c = .resume → run.status = .paused) 409 "run_not_paused"
  require (c = .pause → run.status ≠ .paused) 409 "run_already_paused"

/-- The loop of a cancel over the packets that are open. -/
def supersedePackets (runId : ℕ) : List DecisionPacket → Prog Unit
  | [] => pure ()
  | p :: rest => do
    if p.status = .opened then do
      let _ ← change runId (.packetSet p.decisionPacketId .superseded (p.waitSetRevision + 1))
      supersedePackets runId rest
    else supersedePackets runId rest

/-- The run is in another status, and still blocked by what blocked it. -/
def switched (run : Run) (status : RunStatus) (actions : List CommandType) : RunPatch :=
  { status := some status
    outcome := some none
    availableActions := some actions
    blocking := some run.blocking }

/-- The part of `_control` that a pause and a resume share. -/
def switchStatus (runId : ℕ) (run : Run) (status : RunStatus) (actions : List CommandType) : Prog Run := do
  let run ← updateRun runId (switched run status actions) (some run.runRevision) true
  emit runId run (.phaseChanged run.phase status)

/-- The run has been canceled. -/
def canceled : RunPatch :=
  { status := some .terminal
    outcome := some (some .canceled)
    availableActions := some []
    blocking := some ⟨[], []⟩ }

/-- The part of `_control` that only a cancel runs. -/
def cancelRun (runId : ℕ) (d : RunData) : Prog Run := do
  supersedePackets runId d.packets
  let resultId ← newId
  finalizeRunWithResult runId (some resultId) .canceled (some "USER_CANCELED") canceled [.canceled]
    (some d.run.runRevision)

/-- What a control command does to the run. -/
def Control.act (runId : ℕ) (d : RunData) : Control → Prog Run
  | pause => switchStatus runId d.run .paused [.resume, .cancel]
  | resume =>
    if d.packets.any (·.status = .opened) then switchStatus runId d.run .waitingUser [.answer, .pause, .cancel]
    else switchStatus runId d.run .running [.pause, .cancel]
  | cancel => cancelRun runId d

/-- The wake after a resume or a cancel. -/
def wakeUnlessTerminal (r : Readings) (runId : ℕ) : Prog Unit := do
  let w ← read
  match w.jobs.lookup runId with
  | none => pure ()
  | some job =>
    if job.terminal then pure ()
    else do
      let _ ← onJobs r (.wake runId)
      pure ()

/-- `_control`, and what `resume` and `cancel` do after it. -/
def control (r : Readings) (tenantId : String) (runId : ℕ) (c : Control) (revision : Option ℕ) : Prog Unit := do
  let d ← ownedRun tenantId runId
  let _ ← check (c.check d.run revision)
  let commandId ← createCommand runId c.command .running
  let run ← c.act runId d
  let _ ← change runId (.commandSet commandId .succeeded (some run.runRevision))
  if c = .pause then pure ()
  else wakeUnlessTerminal r runId

/-! ### Approvals -/

inductive Decision where
  | approve | requestChanges | reject
  deriving DecidableEq

def Decision.status : Decision → ApprovalStatus
  | approve => .approved
  | requestChanges => .changesRequested
  | reject => .rejected

def Decision.command : Decision → CommandType
  | approve => .approve
  | requestChanges => .requestChanges
  | reject => .reject

/-- The model that an approval creates, unless it is there. -/
def registerCandidate (runId : ℕ) (run : Run) (models : List ℕ) : Decision → Prog Unit
  | .approve =>
    match run.pendingModelCandidate with
    | none => raise (problem 409 "model_candidate_missing")
    | some modelId =>
      if modelId ∈ models then pure ()
      else do
        let _ ← createModel runId modelId
        pure ()
  | _ => pure ()

/-- `decide_approval`, which does not take the lock; `human` is what the check of the
caller says. -/
def decide (now : Time) (tenantId : String) (runId approvalId evidenceVersion : ℕ) (decision : Decision)
    (human : Except Problem Unit) : Prog Unit := do
  let d ← ownedRun tenantId runId
  match d.approvals.find? (·.approvalId = approvalId) with
  | none => raise (problem 404 "not_found")
  | some approval => do
    let _ ← check (human.mapError Fault.problem)
    let _ ← check (require (approval.status = .opened ∧ d.run.status = .waitingApproval) 409 "approval_not_open")
    let _ ← check (require (approval.evidenceVersion = evidenceVersion) 412 "stale_revision")
    if approval.expiresAt ≤ now then do
      let _ ← change runId (.approvalSet approvalId .expired (approval.evidenceVersion + 1))
      raise (problem 409 "approval_expired")
    else do
      let _ ← change runId (.approvalSet approvalId decision.status (approval.evidenceVersion + 1))
      let commandId ← createCommand runId decision.command .succeeded
      registerCandidate runId d.run d.models decision
      let run ← finalizeRunWithResult runId none .succeeded
        (if decision = .approve then none else some "PRODUCTION_APPROVAL_NOT_GRANTED") succeeded
        [.stageCompleted .package, .completed] (some d.run.runRevision)
      let _ ← change runId (.commandSet commandId .succeeded (some run.runRevision))
      pure ()

/-! ### Finalizing and deleting datasets -/

structure FinalizeRequest where
  versionId : ℕ
  uploadId : ℕ
  sha256 : String

/-- `finalize_dataset` up to its I/O, and whether it comes to that. -/
def startFinalize (tenantId : String) (request : FinalizeRequest) : Prog Bool := do
  let w ← read
  let version ← check (owned DatasetVersion.tenantId tenantId (w.versions.get request.versionId))
  if version.status = .ready ∧ version.sha256 = some request.sha256 then pure false
  else do
    let _ ← check (require (version.status = .uploading ∧ request.uploadId = version.uploadId) 409 "upload_not_active")
    pure true

/-- `finalize_dataset` when the bytes are in their place, or could not be put there. -/
def endFinalize (request : FinalizeRequest) (stored : Bool) : Prog Unit := do
  if stored then do
    write (.put (.dataset request.versionId))
    write (.versionReady request.versionId request.sha256)
  else raise (problem 422 "upload_integrity_failed")

/-- What is left of a deletion once it has been accepted, piece by piece. -/
inductive Chore where
  | cancel (runId : ℕ)
  | removeVersion (versionId : ℕ)
  | removeArtifact (runId artifactId : ℕ)
  | forgetArtifact (runId artifactId : ℕ)
  deriving DecidableEq

/-- A deletion that is under way. -/
structure DeletionTask where
  deletionId : ℕ
  tenantId : String
  chores : List Chore

def markVersions : List ℕ → Prog Unit
  | [] => pure ()
  | versionId :: rest => do
    write (.versionDeleted versionId)
    markVersions rest

def markArtifacts : List (ℕ × ℕ) → Prog Unit
  | [] => pure ()
  | (runId, artifactId) :: rest => do
    let _ ← change runId (.artifactState artifactId .deleting)
    markArtifacts rest

/-- The versions of a dataset that belong to a tenant. -/
def World.versionsOf (w : World) (tenantId : String) (datasetId : ℕ) : List ℕ :=
  (w.versions.filter fun p => p.2.datasetId = datasetId ∧ p.2.tenantId = tenantId).map Prod.fst

/-- The runs of a tenant on some versions. -/
def World.runsOn (w : World) (tenantId : String) (versions : List ℕ) : List (ℕ × RunData) :=
  w.runs.filter fun p => p.2.run.tenantId = tenantId ∧ p.2.run.datasetVersionId ∈ versions

/-- `delete_dataset` up to the first point where it yields. -/
def startDeletion (tenantId : String) (datasetId : ℕ) : Prog DeletionTask := do
  let w ← read
  let _ ← check (owned Dataset.tenantId tenantId (w.datasets.get datasetId))
  let versions := w.versionsOf tenantId datasetId
  let runs := w.runsOn tenantId versions
  write (.deletion ⟨tenantId, datasetId, .running, runs.map Prod.fst⟩)
  write (.datasetDeleted datasetId)
  markVersions versions
  let artifacts := runs.flatMap fun p => p.2.artifacts.map fun a => (p.1, a.artifactId)
  markArtifacts artifacts
  let cancels := (runs.filter fun p => p.2.run.status ≠ .terminal).map fun p => Chore.cancel p.1
  pure ⟨w.ids + 1, tenantId, cancels ++ versions.map .removeVersion ++
    artifacts.flatMap fun p => [.removeArtifact p.1 p.2, .forgetArtifact p.1 p.2]⟩

/-- One piece of a deletion; `ok` is whether the object store obeys. -/
def Chore.perform (r : Readings) (tenantId : String) (ok : Bool) : Chore → Prog Unit
  | cancel runId => control r tenantId runId .cancel none
  | removeVersion versionId =>
    if ok then write (.remove (.dataset versionId)) else raise (.runtime "OSError")
  | removeArtifact runId artifactId =>
    if ok then write (.remove (.artifact runId artifactId)) else raise (.runtime "OSError")
  | forgetArtifact runId artifactId => do
    let _ ← change runId (.artifactState artifactId .deleted)
    pure ()

/-- `delete_dataset` from one point where it yields to the next, and what is left of it. -/
def continueDeletion (r : Readings) (ok : Bool) (task : DeletionTask) : Prog (Option DeletionTask) := do
  match task.chores with
  | [] => do
    write (.deletionSet task.deletionId .completed)
    pure none
  | chore :: rest =>
    match ← (chore.perform r task.tenantId ok).attempt with
    | .ok () => pure (some { task with chores := rest })
    | .error _ => do
      write (.deletionSet task.deletionId .failed)
      pure none

end AutomlApi.Workflow
