import AutomlApi.Library.Runs
import AutomlApi.Workflow.Commands

/-! The process as a transition system. Its durable part is the `World`; the rest, the
tasks that run and wait, is lost when it dies. A step is what one task does between
two points where it yields: at a thread, at the object store, and at the lock, for
which a task may have to queue behind others even while nobody holds it. A process
may also die after any of the records of a step, and boots again from what is there. -/

namespace AutomlApi.Workflow

open Jobs (Job Readings Time)
open Store (Value)
open Worker (LocalExecutionWorker)

/-! ### Tasks -/

/-- How far the backend has come in the training thread, or what its callback raised. -/
inductive EngineStage where
  | fresh
  | planned
  | evaluated
  | broken (fault : Fault)

/-- The stages in their order. -/
def StageCall.follows : StageCall → EngineStage → Bool
  | plan _, .fresh => true
  | train _, .planned => true
  | _, _ => false

def StageCall.reached : StageCall → EngineStage
  | plan _ => .planned
  | train _ => .evaluated

/-- Where `_publish_backend_stage` is, which the training thread waits for. -/
inductive Publication where
  | idle
  | queueing (call : StageCall)
  | storing (call : StageCall) (pending : PendingSplit)

/-- The training thread. It cannot be cancelled, and outlives a handler that is. -/
structure Thread where
  job : Job ℕ
  stage : EngineStage
  publication : Publication

/-- How the training thread ends. -/
inductive Ending where
  | result (result : TrainingResult)
  | positiveClass (classes : List Value)
  | engineError (code : String)
  | raises

/-- What the backend can come to after a stage. -/
def Ending.follows : Ending → EngineStage → Bool
  | result _, .evaluated => true
  | result _, _ => false
  | positiveClass _, .fresh => true
  | positiveClass _, _ => false
  | _, _ => true

/-- Where the worker is: no process, before its next claim, waiting for a handler, past
the end of a handler, or ended for the rest of the life of the process. -/
inductive WorkerState where
  | off
  | idle
  | handling (job : Job ℕ) (place : Place)
  | settling (job : Job ℕ) (outcome : Worker.Outcome)
  | ended

structure Tasks where
  worker : WorkerState
  thread : Option Thread
  finalizing : Option FinalizeRequest
  deletions : List DeletionTask

namespace Tasks

/-- No process. -/
def off : Tasks := ⟨.off, none, none, []⟩

/-- There is a process. -/
def up (t : Tasks) : Bool :=
  match t.worker with
  | .off => false
  | _ => true

/-- A task holds the lock while the object store works for it. -/
def locked (t : Tasks) : Bool :=
  t.finalizing.isSome ||
    (match t.thread with
    | some ⟨_, _, .storing _ _⟩ => true
    | _ => false) ||
    (match t.worker with
    | .handling _ (.publishing _) => true
    | _ => false)

/-- How an exception ends the handler. -/
def fault (f : Fault) : Worker.Outcome := if f.isFence then .fenceRaised else .raised f.name

/-- The tasks after a turn of the handler. -/
def turn (t : Tasks) (job : Job ℕ) : Except Fault Turn → Tasks
  | .ok (.yields .training) => { t with worker := .handling job .training, thread := some ⟨job, .fresh, .idle⟩ }
  | .ok (.yields place) => { t with worker := .handling job place }
  | .ok (.returns outcome) => { t with worker := .settling job outcome }
  | .error f => { t with worker := .settling job (fault f) }

/-- The handler when its training thread ends. -/
def wake (job : Job ℕ) (stage : EngineStage) : Ending → WorkerState
  | .result result => .handling job (.queueing (.trained result))
  | .positiveClass classes => .handling job (.queueing (.positiveClass classes))
  | .engineError code => .handling job (.queueing (.engineError code))
  | .raises =>
    match stage with
    | .broken f => .settling job (fault f)
    | _ => .settling job (.raised "Exception")

end Tasks

/-! ### Steps -/

inductive Action where
  | createDataset (tenantId : String)
  | createRun (r : Readings) (tenantId : String) (request : RunRequest) (admitted : Except Problem Unit)
  | answer (r : Readings) (tenantId : String) (runId : ℕ) (request : AnswerRequest)
  | control (r : Readings) (tenantId : String) (runId : ℕ) (c : Control) (revision : Option ℕ)
  | decide (now : Time) (tenantId : String) (runId approvalId evidenceVersion : ℕ) (decision : Decision)
      (human : Except Problem Unit)
  | startFinalize (tenantId : String) (request : FinalizeRequest)
  | endFinalize (stored : Bool)
  | startDeletion (tenantId : String) (datasetId : ℕ)
  | continueDeletion (index : ℕ) (r : Readings) (ok : Bool)
  | boot (r : Readings)
  | claim (r : Readings)
  | start
  | profileRead (profile : Except String (List String))
  | enter (r : Readings)
  | resultStored (r : Readings) (stored : Bool)
  | settle (r : Readings)
  | heartbeat (r : Readings)
  | stop (r : Readings)
  | callback (r : Readings) (call : StageCall)
  | publish
  | splitStored (stored : Bool)
  | threadEnds (ending : Ending)

/-- A request changes no task. -/
def Tasks.request (t : Tasks) (p : Prog Unit) : Prog Tasks := do
  p
  pure t

/-- A turn of the handler. -/
def Tasks.handle (t : Tasks) (job : Job ℕ) (p : Prog Turn) : Prog Tasks := do
  let result ← p.attempt
  pure (t.turn job result)

/-- A section of the training thread's publication. -/
def Tasks.publication (t : Tasks) (thread : Thread) (call : StageCall) (p : Prog (Option PendingSplit)) :
    Prog Tasks := do
  match ← p.attempt with
  | .ok none => pure { t with thread := some { thread with stage := call.reached, publication := .idle } }
  | .ok (some pending) => pure { t with thread := some { thread with publication := .storing call pending } }
  | .error f => pure { t with thread := some { thread with stage := .broken f, publication := .idle } }

/-- What the worker runs under a cancellation. -/
def Tasks.cancelled (t : Tasks) (r : Readings) (job : Job ℕ) : Prog Tasks := do
  let _ ← ((retryJob r job 0 "CancelledError: worker stopped").attempt : Prog _)
  pure { t with worker := .ended }

/-- What a task does in one step, where the step can be taken. -/
def Tasks.section (w : LocalExecutionWorker) (t : Tasks) : Action → Option (Prog Tasks)
  | .createDataset tenantId => if t.up ∧ t.locked = false then some (t.request (createDataset tenantId)) else none
  | .createRun r tenantId request admitted =>
    if t.up ∧ t.locked = false then some (t.request (createRun r tenantId request admitted)) else none
  | .answer r tenantId runId request =>
    if t.up ∧ t.locked = false then some (t.request (answer r tenantId runId request)) else none
  | .control r tenantId runId c revision =>
    if t.up ∧ t.locked = false then some (t.request (control r tenantId runId c revision)) else none
  | .decide now tenantId runId approvalId evidenceVersion decision human =>
    if t.up then some (t.request (decide now tenantId runId approvalId evidenceVersion decision human)) else none
  | .startFinalize tenantId request =>
    if t.up ∧ t.locked = false then
      some do
        let goesOn ← startFinalize tenantId request
        pure (if goesOn then { t with finalizing := some request } else t)
    else none
  | .endFinalize stored =>
    t.finalizing.map fun request => do
      let _ ← ((endFinalize request stored).attempt : Prog _)
      pure { t with finalizing := none }
  | .startDeletion tenantId datasetId =>
    if t.up then
      some do
        let task ← startDeletion tenantId datasetId
        pure { t with deletions := t.deletions ++ [task] }
    else none
  | .continueDeletion index r ok =>
    t.deletions[index]?.bind fun task =>
      if (match task.chores with | .cancel _ :: _ => t.locked | _ => false) then none
      else some do
        match ← continueDeletion r ok task with
        | some rest => pure { t with deletions := t.deletions.set index rest }
        | none => pure { t with deletions := t.deletions.eraseIdx index }
  | .boot r =>
    match t.worker with
    | .off => some do
      ensureExecutionJobs r
      pure { Tasks.off with worker := .idle }
    | _ => none
  | .claim r =>
    match t.worker with
    | .idle => some do
      match ← (onJobs r (.claim w.workerId w.leaseSeconds)).attempt with
      | .ok (some job) => pure { t with worker := .handling job .fresh }
      | .ok none => pure t
      | .error _ => pure { t with worker := .ended }
    | _ => none
  | .start =>
    match t.worker with
    | .handling job .fresh => some (t.handle job (startHandler job))
    | _ => none
  | .profileRead profile =>
    match t.worker, profile with
    | .handling job .profiling, .ok columns =>
      some (pure { t with worker := .handling job (.queueing (.profiled columns)) })
    | .handling job .profiling, .error message => some (pure { t with worker := .settling job (.raised message) })
    | _, _ => none
  | .enter r =>
    match t.worker with
    | .handling job (.queueing entry) =>
      if t.locked then none else some (t.handle job (enter w r job entry))
    | _ => none
  | .resultStored r stored =>
    match t.worker with
    | .handling job (.publishing pending) =>
      some (t.handle job do
        let pending ← resumeResult r job.runId pending stored
        published pending)
    | _ => none
  | .settle r =>
    match t.worker with
    | .settling job outcome => some do
      match ← (settle w r job outcome).attempt with
      | .ok () => pure { t with worker := .idle }
      | .error _ => pure { t with worker := .ended }
    | _ => none
  | .heartbeat r =>
    match t.worker with
    | .handling job _ | .settling job _ => some do
      match ← (onJobs r (.renew job.claim w.leaseSeconds)).attempt with
      | .ok _ => pure t
      | .error f =>
        pure { t with worker := if f.isFence then .ended else .settling job (.raised f.name) }
    | _ => none
  | .stop r =>
    match t.worker with
    | .idle => some (pure { t with worker := .ended })
    | .handling job _ | .settling job _ => some (t.cancelled r job)
    | _ => none
  | .callback r call =>
    match t.thread with
    | some ⟨job, stage, .idle⟩ =>
      if call.follows stage then
        some do
          match ← (onJobs r (.renew job.claim w.leaseSeconds)).attempt with
          | .ok _ => pure { t with thread := some ⟨job, stage, .queueing call⟩ }
          | .error f => pure { t with thread := some ⟨job, .broken f, .idle⟩ }
      else none
    | _ => none
  | .publish =>
    match t.thread with
    | some ⟨job, stage, .queueing call⟩ =>
      if t.locked then none
      else some (t.publication ⟨job, stage, .queueing call⟩ call (publishStage job.runId call))
    | _ => none
  | .splitStored stored =>
    match t.thread with
    | some ⟨job, stage, .storing call pending⟩ =>
      some (t.publication ⟨job, stage, .idle⟩ call do
        resumeStage job.runId pending stored
        pure none)
    | _ => none
  | .threadEnds ending =>
    match t.thread with
    | some ⟨_, stage, .idle⟩ =>
      if ending.follows stage then
        some (pure
          { t with
            thread := none
            worker := match t.worker with
              | .handling job' .training => Tasks.wake job' stage ending
              | other => other })
      else none
    | _ => none

structure System where
  world : World
  tasks : Tasks

namespace System

/-- A step, or a step in which the process dies once it has written some records. -/
inductive Event where
  | act (a : Action)
  | crash (a : Action) (written : ℕ)

/-- The first start of the process is to come. -/
def init : System := ⟨.empty, .off⟩

def step (w : LocalExecutionWorker) (s : System) : Event → Option System
  | .act a => (s.tasks.section w a).map fun p =>
    match p s.world with
    | (.ok tasks, records) => ⟨replay s.world records, tasks⟩
    | (.error _, records) => ⟨replay s.world records, s.tasks⟩
  | .crash a written => (s.tasks.section w a).map fun p => ⟨p.cut written s.world, .off⟩

end System

end AutomlApi.Workflow
