import AutomlApi.Jobs.Holding
import AutomlApi.Library.Runs

/-! The polling loop of `LocalExecutionWorker`. A step of the loop is what happens
between two points where it yields: the claim, one heartbeat, the end of the
handler, the commit, the end of the dead-job handler. Between them any other
party may call the store. -/

namespace AutomlApi.Worker

open Store (Fields)
open Jobs

/-- `CHECKPOINT(…)`, whose constructor checks its fields. -/
structure CheckpointResult where
  nextStep : String
  status : JobStatus
  checkpoint : Fields
  nextStep_ne : nextStep ≠ ""
  status_mem : status = .ready ∨ status = .waiting

/-- How the handler of a job ends: by a result, by a `JobFenceError`, by another
exception, or cancelled. A value that is no result raises a `TypeError`. -/
inductive Outcome where
  | complete
  | checkpoint (result : CheckpointResult)
  | raised (error : String)
  | fenceRaised
  | cancelled

/-- The settings of a worker, as its constructor checks them. -/
structure LocalExecutionWorker where
  workerId : String
  leaseSeconds : ℚ
  retryBaseSeconds : ℚ
  retryMaxSeconds : ℚ
  notifiesDead : Bool
  workerId_ne : workerId ≠ ""
  leaseSeconds_pos : 0 < leaseSeconds
  retryBaseSeconds_nonneg : 0 ≤ retryBaseSeconds
  retryMaxSeconds_nonneg : 0 ≤ retryMaxSeconds

/-- What ends the loop other than `stop()`. -/
inductive Exit (ι : Type*) where
  | fault (f : Fault ι)
  | handlerFence
  | cancelled
  | deadHandler
  deriving DecidableEq

/-- Where the loop is: before the next claim, waiting for the handler, past the end
of the handler, waiting for the dead-job handler (with whether a `CancelledError`
is raised again after it), or ended. -/
inductive Phase (ι : Type*) where
  | waiting
  | handling (job : Job ι)
  | settling (job : Job ι) (outcome : Outcome)
  | notifying (reraise : Bool)
  | stopping (job : Job ι)
  | stopped
  | died (exit : Exit ι)

namespace Phase

variable {ι : Type*}

/-- The job that the loop holds. -/
def job : Phase ι → Option (Job ι)
  | handling job | settling job _ => some job
  | _ => none

/-- The loop goes on. -/
def running : Phase ι → Bool
  | waiting | handling _ | settling .. | notifying _ => true
  | _ => false

/-- The loop has ended by an exception. -/
def exit : Phase ι → Option (Exit ι)
  | died exit => some exit
  | _ => none

/-- The loop goes on, or an exception has ended it. -/
def ordinary (p : Phase ι) : Bool := p.running || p.exit.isSome

end Phase

structure State (ι : Type*) where
  jobs : JobStore ι
  phase : Phase ι

inductive Event (ι : Type*) where
  | other (e : Jobs.Event ι)
  | poll (r : Readings)
  | heartbeat (r : Readings)
  | finish (outcome : Outcome)
  | settle (r : Readings)
  | notified (raises : Bool)
  | stop
  | unwind (r : Readings)

namespace LocalExecutionWorker

/-- `_retry_delay`, in exact arithmetic. -/
def retryDelay (w : LocalExecutionWorker) (attempt : ℕ) : ℚ :=
  if w.retryBaseSeconds = 0 ∨ w.retryMaxSeconds = 0 then 0
  else min w.retryMaxSeconds (w.retryBaseSeconds * 2 ^ (attempt - 1))

theorem retryDelay_nonneg (w : LocalExecutionWorker) (attempt : ℕ) : 0 ≤ w.retryDelay attempt := by
  unfold retryDelay
  split
  · exact le_rfl
  · exact le_min w.retryMaxSeconds_nonneg (mul_nonneg w.retryBaseSeconds_nonneg (by positivity))

variable {ι : Type*} [LinearOrder ι]

/-- `claim_execution_job` and what `run_once` does with its reply. -/
def claim (w : LocalExecutionWorker) (t : Table ι) (r : Readings) : Table ι × Phase ι :=
  match claimExecutionJob t r w.workerId w.leaseSeconds with
  | .ok (t', some job) => (t', .handling job)
  | .ok (t', none) => (t', .waiting)
  | .error fault => (t, .died (.fault fault))

/-- `renew_execution_job` in the heartbeat task; what it raises ends the wait for
the handler and is handled as the end of it. -/
def renew (w : LocalExecutionWorker) (t : Table ι) (r : Readings) (job : Job ι) (phase : Phase ι) :
    Table ι × Phase ι :=
  match renewExecutionJob t r job.claim w.leaseSeconds with
  | .ok (t', _) => (t', phase)
  | .error fault =>
    if fault.isFence then (t, .died (.fault fault)) else (t, .settling job (.raised "heartbeat"))

/-- After `retry_execution_job`: a job that it made `DEAD` is notified. -/
def notify (w : LocalExecutionWorker) (updated : Job ι) (reraise : Bool) : Phase ι :=
  if updated.status = .dead ∧ w.notifiesDead then .notifying reraise
  else if reraise then .died .cancelled
  else .waiting

/-- The rest of `run_once` after the handler has ended. -/
def settle (w : LocalExecutionWorker) (t : Table ι) (r : Readings) (job : Job ι) :
    Outcome → Table ι × Phase ι
  | .complete =>
    match completeExecutionJob t r job.claim with
    | .ok (t', _) => (t', .waiting)
    | .error fault => (t, .died (.fault fault))
  | .checkpoint result =>
    match checkpointExecutionJob t r job.claim result.nextStep result.checkpoint result.status with
    | .ok (t', _) => (t', .waiting)
    | .error fault => (t, .died (.fault fault))
  | .raised error =>
    match retryExecutionJob t r job.claim (w.retryDelay job.attempt) error with
    | .ok (t', updated) => (t', w.notify updated false)
    | .error fault => (t, .died (.fault fault))
  | .fenceRaised => (t, .died .handlerFence)
  | .cancelled =>
    match retryExecutionJob t r job.claim 0 "CancelledError: worker stopped" with
    | .ok (t', updated) => (t', w.notify updated true)
    | .error fault => (t, if fault.isFence then .died .cancelled else .died (.fault fault))

/-- `run_once` under the cancellation that `stop()` sends. -/
def unwind (t : Table ι) (r : Readings) (job : Job ι) : Table ι × Phase ι :=
  ((t.commit (retryExecutionJob t r job.claim 0 "CancelledError: worker stopped")).1, .stopped)

/-- A store operation of the loop itself, under a clock that does not go back. -/
def act (s : State ι) (r : Readings) (p : Table ι × Phase ι) : Option (State ι) :=
  if s.jobs.clock ≤ r.first then some ⟨⟨p.1, r.fourth⟩, p.2⟩ else none

def step (w : LocalExecutionWorker) (s : State ι) : Event ι → Option (State ι)
  | .other e => (s.jobs.step e).map fun jobs => ⟨jobs, s.phase⟩
  | .poll r =>
    match s.phase with
    | .waiting => act s r (w.claim s.jobs.table r)
    | _ => none
  | .heartbeat r => s.phase.job.bind fun job => act s r (w.renew s.jobs.table r job s.phase)
  | .finish outcome =>
    match s.phase with
    | .handling job => some ⟨s.jobs, .settling job outcome⟩
    | _ => none
  | .settle r =>
    match s.phase with
    | .settling job outcome => act s r (w.settle s.jobs.table r job outcome)
    | _ => none
  | .notified raises =>
    match s.phase with
    | .notifying reraise =>
      some ⟨s.jobs, if raises then .died .deadHandler else if reraise then .died .cancelled else .waiting⟩
    | _ => none
  | .stop =>
    match s.phase with
    | .handling job | .settling job _ => some ⟨s.jobs, .stopping job⟩
    | .waiting | .notifying _ => some ⟨s.jobs, .stopped⟩
    | _ => none
  | .unwind r =>
    match s.phase with
    | .stopping job => act s r (unwind s.jobs.table r job)
    | _ => none

def init (start : Time) : State ι := ⟨.init start, .waiting⟩

end LocalExecutionWorker

end AutomlApi.Worker
