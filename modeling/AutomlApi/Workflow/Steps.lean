import AutomlApi.Worker.Loop
import AutomlApi.Workflow.Stages

/-! What the worker does between two points where it yields: the parts of
`handle_execution_job` before and after a thread, the lock or the object store,
what `run_once` does with the end of the handler, and `ensure_execution_jobs`. -/

namespace AutomlApi.Workflow

open Durable (read raise)
open Jobs (Job Readings)
open Store (Value Fields)
open Worker (LocalExecutionWorker)

/-- The name of the exception type, which `last_error` starts with. -/
def Fault.name : Fault → String
  | .problem _ => "APIProblem"
  | .notFound .. => "ResourceNotFoundError"
  | .alreadyExists .. => "ResourceAlreadyExistsError"
  | .revisionConflict .. => "RevisionConflictError"
  | .job (.fence ..) => "JobFenceError"
  | .job (.notFound ..) => "ResourceNotFoundError"
  | .job (.alreadyExists ..) => "ResourceAlreadyExistsError"
  | .job (.terminal _) => "StoreError"
  | .job (.value _) => "ValueError"
  | .job (.type _) => "TypeError"
  | .runtime message => message

/-- A `JobFenceError`. -/
def Fault.isFence : Fault → Bool
  | .job f => f.isFence
  | _ => false

/-! ### The handler -/

/-- What the handler does once it has the lock: commit a profile, go on after an
answer, start to train, or take up what the training thread has come to. -/
inductive Entry where
  | profiled (columns : List String)
  | resolve
  | train
  | positiveClass (classes : List Value)
  | engineError (code : String)
  | trained (result : TrainingResult)

/-- Where the handler is: not started, waiting for the profile, for the lock, for the
training thread or for the object store. -/
inductive Place where
  | fresh
  | profiling
  | queueing (entry : Entry)
  | training
  | publishing (pending : PendingResult)

/-- What the handler does next: it yields, or it returns. -/
inductive Turn where
  | yields (place : Place)
  | returns (outcome : Worker.Outcome)

/-- `CHECKPOINT(…)`. -/
def checkpoint (nextStep : String) (waiting : Bool) (fields : Fields) : Prog Turn :=
  if h : nextStep = "" then raise (.runtime "ValueError")
  else pure (.returns (.checkpoint
    ⟨nextStep, if waiting then .waiting else .ready, fields, h, by cases waiting <;> simp⟩))

/-- `COMPLETE`. -/
def complete : Prog Turn := pure (.returns .complete)

/-- `_dataset_path`. -/
def datasetPath (run : Run) : Prog Unit := do
  let w ← read
  match w.versions.get run.datasetVersionId with
  | some version =>
    if version.blobKey = false then raise (.runtime "RuntimeError")
    else if .dataset run.datasetVersionId ∈ w.blobs then pure ()
    else raise (.runtime "BlobNotFoundError")
  | none => raise (.runtime "RuntimeError")

/-- `handle_execution_job` up to the first point where it yields. -/
def startHandler (job : Job ℕ) : Prog Turn := do
  let w ← read
  match w.runs.get job.runId with
  | none => complete
  | some d =>
    match d.run.status with
    | .terminal | .waitingApproval => complete
    | .paused | .waitingUser => checkpoint job.workflowStep true job.checkpoint
    | .queued | .running =>
      if job.workflowStep = "PROFILE" then do
        datasetPath d.run
        pure (.yields .profiling)
      else if job.workflowStep = "RESOLVE_TASK" then pure (.yields (.queueing .resolve))
      else if job.workflowStep = "TRAIN" then do
        datasetPath d.run
        pure (.yields (.queueing .train))
      else raise (.runtime "RuntimeError")

/-- The run waits for the answer to a packet. -/
def asking (packetId : ℕ) : RunPatch :=
  { phase := some .plan
    status := some .waitingUser
    progress := some 35
    blocking := some ⟨[packetId], []⟩
    availableActions := some [.answer, .pause, .cancel] }

/-- `_request_decision`. -/
def requestDecision (runId : ℕ) (run : Run) (questions : List Question) : Prog Unit := do
  let packetId ← newId
  let waitSetId ← newId
  let updated ← updateRun runId (asking packetId) (some run.runRevision) true
  let _ ← createDecisionPacket runId ⟨packetId, waitSetId, 1, .opened, questions⟩
  let updated ← emit runId updated (.phaseChanged .plan .waitingUser)
  let _ ← emit runId updated (.packetRequested packetId)
  pure ()

/-- `_initial_questions`. -/
def initialQuestions (run : Run) (columns : List String) : List Question :=
  (if run.resolvedInputs.targetColumn.any (· ∈ columns) then [] else [.target columns]) ++
    (if run.resolvedInputs.iidConfirmed then [] else [.iid])

/-- The run is at work on its profile. -/
def profiling : RunPatch :=
  { phase := some .profile, status := some .running, executionStep := some "PROFILE", progress := some 15 }

/-- The run moves on to its training step. -/
def planQueued : RunPatch :=
  { phase := some .plan
    status := some .queued
    executionStep := some "TRAIN"
    progress := some 40
    availableActions := some [.pause, .cancel] }

/-- `_execute_profile` from the lock on. -/
def profiled (runId : ℕ) (columns : List String) : Prog Turn := do
  let w ← read
  match w.runs.get runId with
  | none => complete
  | some d =>
    if d.run.status = .terminal then complete
    else do
      let current ← updateRun runId profiling none false
      let current ← completeStage runId current .ingest
      let current ← emit runId current (.phaseChanged .profile .running)
      let (qualityOutput, _) ← commitOutput runId current (.of .dataQualityReport .profile)
      let current ← updateRun runId
        { profileColumns := some columns, executionStep := some "RESOLVE_TASK" } none false
      let questions := initialQuestions current columns
      let current ← completeStage runId current .profile
      let fields : Fields := [("profile_output_id", .int qualityOutput.outputId)]
      if questions.isEmpty then do
        let _ ← updateRun runId planQueued none true
        checkpoint "TRAIN" false fields
      else do
        requestDecision runId current questions
        checkpoint "RESOLVE_TASK" true fields

/-- The same once an answer has been applied. -/
def resolved : RunPatch := { planQueued with pendingCommandId := some none }

/-- `_execute_resolved_task` from the lock on. -/
def resolveTask (runId : ℕ) : Prog Turn := do
  let w ← read
  match w.runs.get runId with
  | none => complete
  | some d =>
    if d.run.status = .terminal then complete
    else do
      let current ← updateRun runId resolved none false
      match d.run.pendingCommandId with
      | none => pure ()
      | some commandId => do
        let _ ← change runId (.commandSet commandId .succeeded (some current.runRevision))
        pure ()
      checkpoint "TRAIN" false [("answers_applied", .bool true)]

/-- `_execute_training` from the lock to the thread. -/
def startTraining (runId : ℕ) : Prog Turn := do
  let w ← read
  match w.runs.get runId with
  | none => complete
  | some d =>
    if d.run.status = .terminal then complete
    else if d.run.status = .paused then checkpoint "TRAIN" true []
    else do
      let _ ← updateRun runId (advanced .plan 42) none false
      pure (.yields .training)

/-- The branch of `_execute_training` for a `PositiveClassRequiredError`. -/
def positiveClassRequired (runId : ℕ) (classes : List Value) : Prog Turn := do
  let d ← find runId
  requestDecision runId d.run [.positiveClass classes]
  checkpoint "RESOLVE_TASK" true []

/-- The run has failed. -/
def failed : RunPatch :=
  { status := some .terminal
    outcome := some (some .failed)
    executionStep := some "FAILED"
    blocking := some ⟨[], []⟩
    availableActions := some [] }

/-- `_fail_run`. -/
def failRun (runId : ℕ) (run : Run) (code : String) : Prog Unit := do
  let (_, run) ← ensureOutput runId run (.of .failureReport run.phase)
  let _ ← finalizeRunWithResult runId none .failed (some code) failed [.failed code] (some run.runRevision)
  pure ()

/-- The branch of `_execute_training` for any other `MLEngineError`. -/
def engineFailed (runId : ℕ) (code : String) : Prog Turn := do
  let w ← read
  match w.runs.get runId with
  | none => complete
  | some d => do
    failRun runId d.run code
    complete

/-- What `_publish_result` comes to for the handler. -/
def published : Option PendingResult → Prog Turn
  | some pending => pure (.yields (.publishing pending))
  | none => complete

/-- `_execute_training` after a training that has succeeded, from the lock on. -/
def trained (w : LocalExecutionWorker) (r : Readings) (job : Job ℕ) (result : TrainingResult) : Prog Turn := do
  let _ ← onJobs r (.renew job.claim w.leaseSeconds)
  let world ← read
  match world.runs.get job.runId with
  | none => complete
  | some d =>
    if d.run.status = .terminal then complete
    else if d.run.status = .paused then checkpoint "TRAIN" true []
    else do
      let pending ← publishResult r job.runId d.run result
      published pending

/-- The handler with the lock in its hands. -/
def enter (w : LocalExecutionWorker) (r : Readings) (job : Job ℕ) : Entry → Prog Turn
  | .profiled columns => profiled job.runId columns
  | .resolve => resolveTask job.runId
  | .train => startTraining job.runId
  | .positiveClass classes => positiveClassRequired job.runId classes
  | .engineError code => engineFailed job.runId code
  | .trained result => trained w r job result

/-! ### The worker around the handler -/

/-- `handle_dead_job`. -/
def handleDeadJob (runId : ℕ) : Prog Unit := do
  let w ← read
  match w.runs.get runId with
  | none => pure ()
  | some d =>
    if d.run.status = .terminal then pure ()
    else failRun runId d.run "WORKER_RETRIES_EXHAUSTED"

/-- `retry_execution_job`, and the dead-job handler if that was the last attempt. -/
def retryJob (r : Readings) (job : Job ℕ) (delaySeconds : ℚ) (error : String) : Prog Unit := do
  match ← onJobs r (.retry job.claim delaySeconds error) with
  | some updated => if updated.status = .dead then handleDeadJob job.runId else pure ()
  | none => pure ()

/-- `run_once` after the handler has ended. -/
def settle (w : LocalExecutionWorker) (r : Readings) (job : Job ℕ) : Worker.Outcome → Prog Unit
  | .complete => do
    let _ ← onJobs r (.complete job.claim)
    pure ()
  | .checkpoint result => do
    let _ ← onJobs r (.checkpoint job.claim result.nextStep result.checkpoint result.status)
    pure ()
  | .raised error => retryJob r job (w.retryDelay job.attempt) error
  | .fenceRaised => raise (.runtime "JobFenceError")
  | .cancelled => retryJob r job 0 "CancelledError: worker stopped"

/-- `create_execution_job`. -/
def createExecutionJob (r : Readings) (runId : ℕ) (workflowStep : String) (fields : Fields) : Prog Unit := do
  let w ← read
  let _ ← onJobs r (.create (fun id => (w.runs.get id).isSome) runId workflowStep fields 5 0)
  pure ()

/-- The loop of `ensure_execution_jobs` over the runs that it has listed. -/
def repairJobs (r : Readings) : List (ℕ × RunData) → Prog Unit
  | [] => pure ()
  | (runId, d) :: rest => do
    let w ← read
    if d.run.status = .terminal ∨ (w.jobs.lookup runId).isSome then pure ()
    else createExecutionJob r runId d.run.executionStep []
    repairJobs r rest

/-- `ensure_execution_jobs`. -/
def ensureExecutionJobs (r : Readings) : Prog Unit := do
  let w ← read
  repairJobs r w.runs

end AutomlApi.Workflow
