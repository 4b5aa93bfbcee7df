import AutomlApi.Jobs.History

/-! The resources of the durable workflow: a run with its outputs, decision packets,
approvals, commands, artifacts and events, and the datasets that runs work on.
What no workflow step reads (the stage list, links, budgets, timestamps, the
texts and metrics inside payloads) is left out. -/

namespace AutomlApi.Workflow

open Store (Value Fields)
open Jobs (Time)

inductive RunStatus where
  | queued | running | waitingUser | waitingApproval | paused | terminal
  deriving DecidableEq

inductive Phase where
  | ingest | profile | plan | train | evaluate | package
  deriving DecidableEq

/-- `phase_order`. -/
def Phase.order : Phase → ℕ
  | ingest => 0
  | profile => 1
  | plan => 2
  | train => 3
  | evaluate => 4
  | package => 5

inductive Outcome where
  | succeeded | failed | canceled
  deriving DecidableEq

/-- The types of commands, which are also the names of the available actions. -/
inductive CommandType where
  | answer | pause | resume | cancel | approve | requestChanges | reject
  deriving DecidableEq

structure Blocking where
  decisionPacketIds : List ℕ
  approvalIds : List ℕ
  deriving DecidableEq

/-- `resolved_inputs`. -/
structure Inputs where
  targetColumn : Option String
  iidConfirmed : Bool
  positiveClass : Option Value

structure Run where
  tenantId : String
  datasetVersionId : ℕ
  phase : Phase
  status : RunStatus
  outcome : Option Outcome
  executionStep : String
  runRevision : ℕ
  snapshotSeq : ℕ
  progress : ℕ
  availableActions : List CommandType
  blocking : Blocking
  resolvedInputs : Inputs
  profileColumns : Option (List String)
  pendingCommandId : Option ℕ
  taskSpecOutputId : Option ℕ
  splitManifestOutputId : Option ℕ
  pendingModelCandidate : Option ℕ
  requiresApproval : Bool

/-- The fields of an update of a run; an absent field stays. -/
structure RunPatch where
  phase : Option Phase := none
  status : Option RunStatus := none
  outcome : Option (Option Outcome) := none
  executionStep : Option String := none
  progress : Option ℕ := none
  availableActions : Option (List CommandType) := none
  blocking : Option Blocking := none
  resolvedInputs : Option Inputs := none
  profileColumns : Option (List String) := none
  pendingCommandId : Option (Option ℕ) := none
  taskSpecOutputId : Option ℕ := none
  splitManifestOutputId : Option ℕ := none
  pendingModelCandidate : Option ℕ := none

/-- An update without one of these fields, and without a new revision, is no news for
the state that the run is in. -/
def RunPatch.loud (p : RunPatch) : Bool :=
  p.phase.isSome || p.status.isSome || p.outcome.isSome || p.availableActions.isSome || p.blocking.isSome ||
    p.pendingModelCandidate.isSome

def Run.update (r : Run) (p : RunPatch) (bumpRevision : Bool) : Run :=
  { r with
    phase := p.phase.getD r.phase
    status := p.status.getD r.status
    outcome := p.outcome.getD r.outcome
    executionStep := p.executionStep.getD r.executionStep
    runRevision := if bumpRevision then r.runRevision + 1 else r.runRevision
    progress := p.progress.getD r.progress
    availableActions := p.availableActions.getD r.availableActions
    blocking := p.blocking.getD r.blocking
    resolvedInputs := p.resolvedInputs.getD r.resolvedInputs
    profileColumns := p.profileColumns <|> r.profileColumns
    pendingCommandId := p.pendingCommandId.getD r.pendingCommandId
    taskSpecOutputId := p.taskSpecOutputId <|> r.taskSpecOutputId
    splitManifestOutputId := p.splitManifestOutputId <|> r.splitManifestOutputId
    pendingModelCandidate := p.pendingModelCandidate <|> r.pendingModelCandidate }

/-! ### What belongs to a run -/

inductive Question where
  | target (columns : List String)
  | iid
  | positiveClass (classes : List Value)

inductive PacketStatus where
  | opened | answered | superseded
  deriving DecidableEq

structure DecisionPacket where
  decisionPacketId : ℕ
  waitSetId : ℕ
  waitSetRevision : ℕ
  status : PacketStatus
  questions : List Question

inductive ApprovalStatus where
  | opened | expired | approved | changesRequested | rejected
  deriving DecidableEq

structure Approval where
  approvalId : ℕ
  status : ApprovalStatus
  evidenceVersion : ℕ
  expiresAt : Time

inductive OutputType where
  | dataQualityReport | taskSpec | splitManifest | baselineResult | trialResult | evaluationReport | modelCard
  | runReport | failureReport
  deriving DecidableEq

/-- An output, with the parts of its payload that later steps read: the number of a
trial, the model of a model card, the artifacts of the visualizations. -/
structure Output where
  outputId : ℕ
  type : OutputType
  phase : Phase
  runRevision : ℕ
  createdSeq : ℕ
  trialNumber : Option ℕ
  modelId : Option ℕ
  visualizations : List (Option ℕ)
  artifactIds : List ℕ
  deriving DecidableEq

inductive ArtifactState where
  | committed | deleting | deleted
  deriving DecidableEq

structure Artifact where
  artifactId : ℕ
  kind : String
  mediaType : String
  sha256 : String
  state : ArtifactState
  outputId : Option ℕ
  deriving DecidableEq

inductive CommandStatus where
  | accepted | running | succeeded
  deriving DecidableEq

structure Command where
  commandId : ℕ
  type : CommandType
  status : CommandStatus
  resultingRunRevision : Option ℕ
  deriving DecidableEq

/-- The types of events, each with what its readers look at. -/
inductive Payload where
  | phaseChanged (phase : Phase) (status : RunStatus)
  | stageCompleted (phase : Phase)
  | outputCommitted (outputId : ℕ)
  | packetRequested (packetId : ℕ)
  | approvalRequested (approvalId : ℕ)
  | completed
  | failed (code : String)
  | canceled
  deriving DecidableEq

structure Event where
  seq : ℕ
  runRevision : ℕ
  payload : Payload
  deriving DecidableEq

structure Result where
  resultManifestId : ℕ
  outcome : Outcome
  code : Option String
  deriving DecidableEq

/-- A run with all that belongs to it. -/
structure RunData where
  run : Run
  events : List Event
  outputs : List Output
  packets : List DecisionPacket
  approvals : List Approval
  commands : List Command
  artifacts : List Artifact
  models : List ℕ
  result : Option Result

/-- What one transaction changes of a run and of what belongs to it. -/
inductive Change where
  | run (p : RunPatch) (bumpRevision : Bool)
  | event (payload : Payload) (runRevision : ℕ)
  | output (o : Output)
  | packet (p : DecisionPacket)
  | packetSet (id : ℕ) (status : PacketStatus) (waitSetRevision : ℕ)
  | command (c : Command)
  | commandSet (id : ℕ) (status : CommandStatus) (resultingRunRevision : Option ℕ)
  | approval (a : Approval)
  | approvalSet (id : ℕ) (status : ApprovalStatus) (evidenceVersion : ℕ)
  | artifact (a : Artifact)
  | artifactOutput (id : ℕ) (outputId : ℕ)
  | artifactState (id : ℕ) (state : ArtifactState)
  | model (id : ℕ)
  | mutated (p : RunPatch) (payload : Payload)
  | finalized (result : Result) (p : RunPatch) (events : List Payload)

namespace RunData

/-- `_append_event_locked` for an event that carries its revision. -/
def append (d : RunData) (payload : Payload) (runRevision : ℕ) : RunData :=
  { d with
    events := d.events ++ [⟨d.events.length + 1, runRevision, payload⟩]
    run := { d.run with snapshotSeq := d.events.length + 1 } }

/-- An update of the item with an id. -/
def updateItem {α : Type} (items : List α) (key : α → ℕ) (id : ℕ) (f : α → α) : List α :=
  items.map fun item => if key item = id then f item else item

def apply (d : RunData) : Change → RunData
  | .run p bump => { d with run := d.run.update p bump }
  | .event payload revision => d.append payload revision
  | .output o => { d with outputs := d.outputs ++ [o] }
  | .packet p => { d with packets := d.packets ++ [p] }
  | .packetSet id status revision =>
    { d with packets := updateItem d.packets DecisionPacket.decisionPacketId id fun p =>
      { p with status := status, waitSetRevision := revision } }
  | .command c => { d with commands := d.commands ++ [c] }
  | .commandSet id status revision =>
    { d with commands := updateItem d.commands Command.commandId id fun c =>
      { c with status := status, resultingRunRevision := revision } }
  | .approval a => { d with approvals := d.approvals ++ [a] }
  | .approvalSet id status version =>
    { d with approvals := updateItem d.approvals Approval.approvalId id fun a =>
      { a with status := status, evidenceVersion := version } }
  | .artifact a => { d with artifacts := d.artifacts ++ [a] }
  | .artifactOutput id outputId =>
    { d with artifacts := updateItem d.artifacts Artifact.artifactId id fun a => { a with outputId := some outputId } }
  | .artifactState id state =>
    { d with artifacts := updateItem d.artifacts Artifact.artifactId id fun a => { a with state := state } }
  | .model id => { d with models := d.models ++ [id] }
  | .mutated p payload =>
    let run := d.run.update p true
    { d with run := run }.append payload run.runRevision
  | .finalized result p events =>
    let run := d.run.update p true
    events.foldl (fun d payload => d.append payload run.runRevision) { d with run := run, result := some result }

end RunData

end AutomlApi.Workflow
