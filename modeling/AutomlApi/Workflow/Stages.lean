import AutomlApi.Workflow.World

/-! Publishing what a step has produced: events, outputs and artifacts, the stages that
the backend reports while it trains, and the final result. A publication that has
to write an artifact gives the object store its bytes and goes on when they are
stored; what it knows until then is a `PendingArtifact`. -/

namespace AutomlApi.Workflow

open Durable (raise write)
open Jobs (Readings Time)

/-- `_emit`. -/
def emit (runId : ℕ) (run : Run) (payload : Payload) : Prog Run := do
  let _ ← newId
  appendEvent runId payload run.runRevision
  updateRun runId {} none false

/-- `_complete_stage`. -/
def completeStage (runId : ℕ) (run : Run) (phase : Phase) : Prog Run := do
  let d ← find runId
  if d.events.any (·.payload = .stageCompleted phase) then pure d.run
  else emit runId run (.stageCompleted phase)

/-- An output of a type and phase, before `_commit_output` fills in the rest. -/
def Output.of (type : OutputType) (phase : Phase) : Output :=
  ⟨0, type, phase, 0, 0, none, none, [], []⟩

/-- `_commit_output`. -/
def commitOutput (runId : ℕ) (run : Run) (o : Output) : Prog (Output × Run) := do
  let outputId ← newId
  let o ← createOutput runId
    { o with outputId := outputId, runRevision := run.runRevision, createdSeq := run.snapshotSeq + 1 }
  let _ ← emit runId run (.outputCommitted outputId)
  let run ← updateRun runId {} none false
  pure (o, run)

/-- `_output_for_type`. -/
def outputForType (runId : ℕ) (type : OutputType) (trialNumber : Option ℕ) : Prog (Option Output) := do
  let d ← find runId
  pure (d.outputs.find? fun o => o.type = type ∧ (trialNumber.isSome → o.trialNumber = trialNumber))

/-- An output of a type: the one that is there, or a new one. -/
def ensureOutput (runId : ℕ) (run : Run) (o : Output) : Prog (Output × Run) := do
  match ← outputForType runId o.type o.trialNumber with
  | some existing => pure (existing, run)
  | none => commitOutput runId run o

/-- The run is at work in a phase of its training step. -/
def advanced (phase : Phase) (progress : ℕ) : RunPatch :=
  { phase := some phase, status := some .running, executionStep := some "TRAIN", progress := some progress }

/-- `_transition_running_phase`. -/
def transitionRunningPhase (runId : ℕ) (run : Run) (phase : Phase) (progress : ℕ) : Prog Run := do
  let updated ←
    if phase.order ≤ run.phase.order then pure run
    else updateRun runId (advanced phase progress) none false
  let d ← find runId
  if d.events.any (·.payload = .phaseChanged phase .running) then pure updated
  else emit runId updated (.phaseChanged phase .running)

/-! ### Artifacts -/

/-- The bytes that `_create_artifact` gives to the object store. -/
structure PendingArtifact where
  artifactId : ℕ
  kind : String
  mediaType : String
  sha256 : String

/-- `_create_artifact` up to its I/O: an artifact with these bytes is taken again. -/
def requestArtifact (runId : ℕ) (kind mediaType sha256 : String) : Prog (Artifact ⊕ PendingArtifact) := do
  let d ← find runId
  let same := d.artifacts.find? fun a =>
    a.kind = kind ∧ a.mediaType = mediaType ∧ a.sha256 = sha256 ∧ a.state = .committed
  match same with
  | some artifact => pure (.inl artifact)
  | none => do
    let id ← newId
    pure (.inr ⟨id, kind, mediaType, sha256⟩)

/-- `_create_artifact` from the moment that the bytes are in their place. -/
def artifactStored (runId : ℕ) (p : PendingArtifact) : Prog Artifact := do
  write (.put (.artifact runId p.artifactId))
  createArtifact runId ⟨p.artifactId, p.kind, p.mediaType, p.sha256, .committed, none⟩

/-- `update_artifact` with the output that refers to it. -/
def linkArtifact (runId outputId : ℕ) (artifact : Artifact) : Prog Unit := do
  let _ ← change runId (.artifactOutput artifact.artifactId outputId)
  pure ()

def linkArtifacts (runId outputId : ℕ) : List Artifact → Prog Unit
  | [] => pure ()
  | artifact :: rest => do
    linkArtifact runId outputId artifact
    linkArtifacts runId outputId rest

/-! ### The stages of the backend -/

/-- A stage that the backend reports: the split it has frozen, or the trials it has run. -/
inductive StageCall where
  | plan (splitSha256 : String)
  | train (trialNumbers : List ℕ)

/-- The phase that follows a stage. -/
def StageCall.next : StageCall → Phase
  | plan _ => .train
  | train _ => .evaluate

/-- Where `_publish_backend_stage` waits for the object store. -/
structure PendingSplit where
  artifact : PendingArtifact
  run : Run

/-- The end of the stage `PLAN`, once its outputs are there. -/
def finishPlan (runId : ℕ) (run : Run) (splitOutput : Output) : Prog Unit := do
  let _ ← updateRun runId { splitManifestOutputId := some splitOutput.outputId } none false
  let run ← completeStage runId run .plan
  let _ ← transitionRunningPhase runId run .train 55
  pure ()

/-- The stage `PLAN` from the artifact of the split. -/
def splitStored (runId : ℕ) (run : Run) (artifact : Artifact) : Prog Unit := do
  let (splitOutput, run) ← commitOutput runId run
    { Output.of .splitManifest .plan with artifactIds := [artifact.artifactId] }
  linkArtifact runId splitOutput.outputId artifact
  finishPlan runId run splitOutput

def publishPlan (runId : ℕ) (run : Run) (splitSha256 : String) : Prog (Option PendingSplit) := do
  let d ← find runId
  if d.events.any (·.payload = .stageCompleted .plan) then do
    let _ ← transitionRunningPhase runId run .train 55
    pure none
  else do
    let (taskOutput, _) ← ensureOutput runId run (.of .taskSpec .plan)
    let run ← updateRun runId { taskSpecOutputId := some taskOutput.outputId } none false
    match ← outputForType runId .splitManifest none with
    | some splitOutput => do
      finishPlan runId run splitOutput
      pure none
    | none =>
      match ← requestArtifact runId "SPLIT_MANIFEST_JSON" "application/json" splitSha256 with
      | .inl artifact => do
        splitStored runId run artifact
        pure none
      | .inr artifact => pure (some ⟨artifact, run⟩)

/-- The loop over the trials. -/
def publishTrials (runId : ℕ) : Run → List ℕ → Prog Run
  | run, [] => pure run
  | run, trialNumber :: rest => do
    let (_, run) ← ensureOutput runId run { Output.of .trialResult .train with trialNumber := some trialNumber }
    publishTrials runId run rest

def publishTrain (runId : ℕ) (run : Run) (trialNumbers : List ℕ) : Prog Unit := do
  let d ← find runId
  let run ←
    if d.events.any (·.payload = .stageCompleted .train) then pure run
    else do
      let (_, run) ← ensureOutput runId run (.of .baselineResult .train)
      let run ← publishTrials runId run trialNumbers
      completeStage runId run .train
  let _ ← transitionRunningPhase runId run .evaluate 80
  pure ()

/-- `_publish_backend_stage` under the lock. -/
def publishStage (runId : ℕ) (call : StageCall) : Prog (Option PendingSplit) := do
  let d ← find runId
  if d.run.status = .terminal then pure none
  else
    match call with
    | .plan splitSha256 => publishPlan runId d.run splitSha256
    | .train trialNumbers => do
      publishTrain runId d.run trialNumbers
      pure none

/-- `_publish_backend_stage` when the object store has the split, or has failed. -/
def resumeStage (runId : ℕ) (pending : PendingSplit) (stored : Bool) : Prog Unit := do
  if stored then do
    let artifact ← artifactStored runId pending.artifact
    splitStored runId pending.run artifact
  else raise (.runtime "BlobStoreError")

/-! ### The final result -/

/-- A visualization of the evaluation, with the hash of its bytes if it was rendered. -/
structure Visualization where
  kind : String
  content : Option String

/-- What the backend returns, with what its descriptor says of its artifact. The report
depends on the visualizations that could be stored. -/
structure TrainingResult where
  visualizations : List Visualization
  exportable : Bool
  artifactKind : String
  artifactMediaType : String
  modelSha256 : String
  reportSha256 : List (Option ℕ) → String

/-- What `_publish_result` waits for the object store to take: a visualization, with the
ones after it, the artifacts made and the records so far; the model; the report. -/
inductive Site where
  | visualization (rest : List Visualization) (artifacts : List Artifact) (records : List (Option ℕ))
  | model (records : List (Option ℕ))
  | report (modelId : ℕ)

structure PendingResult where
  artifact : PendingArtifact
  run : Run
  result : TrainingResult
  site : Site

/-- The run waits for an approval. -/
def awaitingApproval (approvalId modelId : ℕ) : RunPatch :=
  { phase := some .package
    status := some .waitingApproval
    outcome := some none
    executionStep := some "WAITING_APPROVAL"
    progress := some 95
    blocking := some ⟨[], [approvalId]⟩
    availableActions := some [.approve, .requestChanges, .reject, .cancel]
    pendingModelCandidate := some modelId }

/-- The run has succeeded. -/
def succeeded : RunPatch :=
  { phase := some .package
    status := some .terminal
    outcome := some (some .succeeded)
    executionStep := some "COMPLETED"
    progress := some 100
    blocking := some ⟨[], []⟩
    availableActions := some [] }

/-- `_publish_result` from the report on. -/
def conclude (r : Readings) (runId : ℕ) (run : Run) (result : TrainingResult) (modelId : ℕ) :
    Prog (Option PendingResult) := do
  if run.requiresApproval ∧ result.exportable then do
    let d ← find runId
    let approvalId ←
      match d.approvals.find? fun a => a.status = .opened with
      | some approval => pure approval.approvalId
      | none => do
        let approvalId ← newId
        let approval ← createApproval runId ⟨approvalId, .opened, 1, r.fourth + 7⟩
        pure approval.approvalId
    let _ ← mutateRunWithEvent runId (awaitingApproval approvalId modelId) (.approvalRequested approvalId)
      (some run.runRevision)
    pure none
  else do
    let _ ← finalizeRunWithResult runId none .succeeded (some "EVALUATED_CANDIDATE_REQUIRES_GATES") succeeded
      [.stageCompleted .package, .completed] (some run.runRevision)
    pure none

def reportStored (r : Readings) (runId : ℕ) (run : Run) (result : TrainingResult) (modelId : ℕ)
    (artifact : Artifact) : Prog (Option PendingResult) := do
  let (o, run) ← commitOutput runId run { Output.of .runReport .package with artifactIds := [artifact.artifactId] }
  linkArtifact runId o.outputId artifact
  conclude r runId run result modelId

def publishReport (r : Readings) (runId : ℕ) (run : Run) (result : TrainingResult) (records : List (Option ℕ))
    (modelId : ℕ) : Prog (Option PendingResult) := do
  match ← outputForType runId .runReport none with
  | some _ => conclude r runId run result modelId
  | none =>
    match ← requestArtifact runId "RUN_REPORT_JSON" "application/json" (result.reportSha256 records) with
    | .inl artifact => reportStored r runId run result modelId artifact
    | .inr artifact => pure (some ⟨artifact, run, result, .report modelId⟩)

def modelStored (r : Readings) (runId : ℕ) (run : Run) (result : TrainingResult) (records : List (Option ℕ))
    (artifact : Artifact) : Prog (Option PendingResult) := do
  let modelId ← newId
  let (o, run) ← commitOutput runId run
    { Output.of .modelCard .package with modelId := some modelId, artifactIds := [artifact.artifactId] }
  linkArtifact runId o.outputId artifact
  publishReport r runId run result records modelId

def publishModel (r : Readings) (runId : ℕ) (run : Run) (result : TrainingResult) (records : List (Option ℕ)) :
    Prog (Option PendingResult) := do
  let run ← completeStage runId run .evaluate
  let run ← transitionRunningPhase runId run .package 92
  match ← outputForType runId .modelCard none with
  | some card =>
    match card.modelId with
    | some modelId => publishReport r runId run result records modelId
    | none => raise (.runtime "KeyError: model_id")
  | none =>
    match ← requestArtifact runId result.artifactKind result.artifactMediaType result.modelSha256 with
    | .inl artifact => modelStored r runId run result records artifact
    | .inr artifact => pure (some ⟨artifact, run, result, .model records⟩)

/-- The evaluation report, once every visualization has been tried. -/
def commitEvaluation (r : Readings) (runId : ℕ) (run : Run) (result : TrainingResult) (artifacts : List Artifact)
    (records : List (Option ℕ)) : Prog (Option PendingResult) := do
  let (o, run) ← commitOutput runId run
    { Output.of .evaluationReport .evaluate with
      visualizations := records, artifactIds := artifacts.map Artifact.artifactId }
  linkArtifacts runId o.outputId artifacts
  publishModel r runId run result records

/-- The loop over the visualizations. -/
def publishVisualizations (r : Readings) (runId : ℕ) (run : Run) (result : TrainingResult) :
    List Visualization → List Artifact → List (Option ℕ) → Prog (Option PendingResult)
  | [], artifacts, records => commitEvaluation r runId run result artifacts records
  | v :: rest, artifacts, records =>
    match v.content with
    | none => publishVisualizations r runId run result rest artifacts (records ++ [none])
    | some sha256 => do
      match ← requestArtifact runId v.kind "image/png" sha256 with
      | .inl artifact =>
        publishVisualizations r runId run result rest (artifacts ++ [artifact])
          (records ++ [some artifact.artifactId])
      | .inr artifact => pure (some ⟨artifact, run, result, .visualization rest artifacts records⟩)

/-- `_publish_result`. -/
def publishResult (r : Readings) (runId : ℕ) (run : Run) (result : TrainingResult) :
    Prog (Option PendingResult) := do
  match ← outputForType runId .taskSpec none, ← outputForType runId .splitManifest none with
  | some _, some _ =>
    match ← outputForType runId .evaluationReport none with
    | none => publishVisualizations r runId run result result.visualizations [] []
    | some report => publishModel r runId run result report.visualizations
  | _, _ => raise (.runtime "PLAN stage outputs must be durable before evaluation publishing")

/-- `_publish_result` when the object store has the bytes, or has failed. A visualization
that cannot be stored is recorded as failed; the model and the report have to be. -/
def resumeResult (r : Readings) (runId : ℕ) (p : PendingResult) (stored : Bool) : Prog (Option PendingResult) := do
  if stored then do
    let artifact ← artifactStored runId p.artifact
    match p.site with
    | .visualization rest artifacts records =>
      publishVisualizations r runId p.run p.result rest (artifacts ++ [artifact])
        (records ++ [some artifact.artifactId])
    | .model records => modelStored r runId p.run p.result records artifact
    | .report modelId => reportStored r runId p.run p.result modelId artifact
  else
    match p.site with
    | .visualization rest artifacts records =>
      publishVisualizations r runId p.run p.result rest artifacts (records ++ [none])
    | _ => raise (.runtime "BlobStoreError")

end AutomlApi.Workflow
