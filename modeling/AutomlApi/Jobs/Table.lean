import Mathlib.Data.List.MinMax
import Mathlib.Data.List.Nodup
import Mathlib.Data.Prod.Lex
import Mathlib.Order.WithBot
import AutomlApi.Jobs.Row

/-! The table `execution_job` and the seven operations of the store on it. Each runs
in one transaction: an operation that raises leaves the table as it was. Every
operation moves each row by one of the changes of `Job.Moves`. -/

namespace AutomlApi.Jobs

open Store (Value Fields)

/-- The rows in the order of their insertion; `run_id` is the primary key. -/
structure Table (ι : Type*) where
  rows : List (Job ι)
  keys : (rows.map Job.runId).Nodup

namespace Table

variable {ι : Type*}

def empty : Table ι := ⟨[], List.nodup_nil⟩

/-- An update of every row that keeps the primary keys. -/
def update (t : Table ι) (f : Job ι → Job ι) (hf : ∀ j, (f j).runId = j.runId) : Table ι where
  rows := t.rows.map f
  keys := by
    rw [List.map_map, List.map_congr_left fun j _ => show (Job.runId ∘ f) j = j.runId from hf j]
    exact t.keys

variable [LinearOrder ι]

def lookup (t : Table ι) (id : ι) : Option (Job ι) := t.rows.find? (·.runId = id)

/-- `UPDATE … WHERE run_id = ?`. -/
def put (t : Table ι) (j : Job ι) : Table ι :=
  t.update (fun row => if row.runId = j.runId then j else row) (by intro row; split <;> simp [*])

def insert (t : Table ι) (j : Job ι) (h : t.lookup j.runId = none) : Table ι where
  rows := t.rows ++ [j]
  keys := by
    have hj : ∀ row ∈ t.rows, row.runId ≠ j.runId := by simpa [lookup] using h
    simpa [List.nodup_append, t.keys] using hj

theorem runId_of_lookup {t : Table ι} {id : ι} {j : Job ι} (h : t.lookup id = some j) : j.runId = id := by
  simpa using List.find?_some h

theorem mem_of_lookup {t : Table ι} {id : ι} {j : Job ι} (h : t.lookup id = some j) : j ∈ t.rows :=
  List.mem_of_find?_eq_some h

theorem lookup_of_mem {t : Table ι} {j : Job ι} (h : j ∈ t.rows) : t.lookup j.runId = some j := by
  cases hl : t.lookup j.runId with
  | none => simpa using List.find?_eq_none.mp hl j h
  | some k => rw [List.inj_on_of_nodup_map t.keys h (mem_of_lookup hl) (runId_of_lookup hl).symm]

theorem lookup_update (t : Table ι) (f : Job ι → Job ι) (hf : ∀ j, (f j).runId = j.runId) (id : ι) :
    (t.update f hf).lookup id = (t.lookup id).map f := by
  simp only [lookup, update, List.find?_map, Function.comp_def, hf]

theorem lookup_put (t : Table ι) (j : Job ι) (id : ι) :
    (t.put j).lookup id = (t.lookup id).map fun row => if id = j.runId then j else row := by
  rw [put, lookup_update]
  cases h : t.lookup id with
  | none => rfl
  | some row => simp only [Option.map_some, runId_of_lookup h]

theorem lookup_insert (t : Table ι) (j : Job ι) (h : t.lookup j.runId = none) (id : ι) :
    (t.insert j h).lookup id = if id = j.runId then some j else t.lookup id := by
  simp only [lookup, insert, List.find?_append, List.find?_cons, List.find?_nil]
  by_cases hid : id = j.runId
  · subst hid
    rw [lookup] at h
    simp [h]
  · simp [hid, Ne.symm hid]

end Table

/-! ### The operations -/

section Operations

variable {ι : Type*}

/-- What an operation does: a new table with its reply, or a fault. -/
abbrev Effect (ι : Type*) (α : Type*) := Except (Fault ι) (Table ι × α)

/-- The transaction around an operation. -/
def Table.commit {α : Type*} (t : Table ι) : Effect ι α → Table ι × Except (Fault ι) α
  | .ok (t', reply) => (t', .ok reply)
  | .error fault => (t, .error fault)

variable [LinearOrder ι]

/-- `create_execution_job`; `known` are the runs of the store at the call. -/
def createExecutionJob (t : Table ι) (r : Readings) (known : ι → Bool) (runId : ι) (workflowStep : String)
    (checkpoint : Fields) (maxAttempts controlEpoch : ℤ) : Effect ι (Job ι) :=
  if workflowStep = "" then .error (.value "workflow_step must not be empty")
  else if maxAttempts < 1 then .error (.value "max_attempts must be positive")
  else if controlEpoch < 0 then .error (.value "control_epoch must be non-negative")
  else if known runId = false then .error (.notFound "run" runId)
  else
    match Value.encodeFields checkpoint with
    | none => .error (.type "is not JSON serializable")
    | some stored =>
      let job := Job.created runId workflowStep stored maxAttempts.toNat controlEpoch.toNat r.first
      if h : t.lookup job.runId = none then .ok (t.insert job h, job)
      else .error (.alreadyExists "execution_job" runId)

def wakeExecutionJob (t : Table ι) (r : Readings) (runId : ι) : Effect ι (Job ι) :=
  match t.lookup runId with
  | none => .error (.notFound "execution_job" runId)
  | some row =>
    if row.terminal then .error (.terminal runId)
    else .ok (t.put (row.wake r.first), row.wake r.first)

/-- `ORDER BY COALESCE(available_at, lease_expires_at), created_at, run_id`, nulls first. -/
def Job.rank (j : Job ι) : WithBot Moment ×ₗ Time ×ₗ ι :=
  toLex (j.availableAt <|> j.leaseExpiresAt, toLex (j.createdAt, j.runId))

/-- The first claimable row in the order of the query. -/
def Table.next (t : Table ι) (now : Time) : Option (Job ι) :=
  (t.rows.filter (·.claimable now)).argmin Job.rank

def Table.bury (t : Table ι) (now : Time) : Table ι :=
  t.update (Job.bury now) (by intro j; unfold Job.bury; split <;> rfl)

def claimExecutionJob (t : Table ι) (r : Readings) (workerId : String) (leaseSeconds : PyFloat) :
    Effect ι (Option (Job ι)) :=
  if workerId = "" then .error (.value "worker_id must not be empty")
  else if leaseSeconds.le 0 then .error (.value "lease_seconds must be positive")
  else
    let t := t.bury r.first
    if t.rows.any (·.active r.second) then .ok (t, none)
    else
      match t.next r.third with
      | none => .ok (t, none)
      | some row =>
        let job := row.lease workerId (after r.fourth leaseSeconds)
        .ok (t.put job, some job)

def requireJobFence (t : Table ι) (now : Time) (c : Claim ι) : Except (Fault ι) (Job ι) :=
  match t.lookup c.runId with
  | none => .error (.notFound "execution_job" c.runId)
  | some row => row.fenced now c

/-- An update of the row of a claim behind its fence. -/
def fencedUpdate (t : Table ι) (r : Readings) (c : Claim ι) (change : Job ι → Job ι) : Effect ι (Job ι) :=
  (requireJobFence t r.first c).map fun row => (t.put (change row), change row)

def renewExecutionJob (t : Table ι) (r : Readings) (c : Claim ι) (leaseSeconds : PyFloat) : Effect ι (Job ι) :=
  if leaseSeconds.isFinite = false ∨ leaseSeconds.le 0 then .error (.value "lease_seconds must be positive")
  else fencedUpdate t r c (·.renew (after r.second leaseSeconds))

def checkpointExecutionJob (t : Table ι) (r : Readings) (c : Claim ι) (workflowStep : String)
    (checkpoint : Fields) (nextStatus : JobStatus) : Effect ι (Job ι) :=
  if nextStatus ≠ .ready ∧ nextStatus ≠ .waiting then .error (.value "next_status must be READY or WAITING")
  else if workflowStep = "" then .error (.value "workflow_step must not be empty")
  else
    match Value.encodeFields checkpoint with
    | none => .error (.type "is not JSON serializable")
    | some stored => fencedUpdate t r c (·.putBack workflowStep stored nextStatus r.second)

def completeExecutionJob (t : Table ι) (r : Readings) (c : Claim ι) : Effect ι (Job ι) :=
  fencedUpdate t r c Job.complete

def retryExecutionJob (t : Table ι) (r : Readings) (c : Claim ι) (delaySeconds : PyFloat) (error : String) :
    Effect ι (Job ι) :=
  if delaySeconds.lt 0 then .error (.value "delay_seconds must be non-negative")
  else fencedUpdate t r c (·.retry (after r.second delaySeconds) error)

/-! ### What one operation does to the table -/

/-- The changes of the table by one operation. -/
inductive Table.Step (r : Readings) (definite : Bool) (t : Table ι) : Table ι → Prop
  | stays : Step r definite t t
  | inserts (job : Job ι) (h : t.lookup job.runId = none) (hs : job.Shaped) (hr : job.status = .ready) :
      Step r definite t (t.insert job h)
  | puts {j : Job ι} (k : Job ι) (hj : t.lookup k.runId = some j) (h : j.Moves r definite k)
      (hg : k.leaseGeneration = j.leaseGeneration) : Step r definite t (t.put k)
  | buries : Step r definite t (t.bury r.first)
  | leases (row : Job ι) (owner : String) (expiry : Option Moment) (hd : definite → expiry.isSome)
      (hfree : ∀ j ∈ (t.bury r.first).rows, j.active r.second = false)
      (hrow : (t.bury r.first).lookup row.runId = some row) (h : row.claimable r.third) :
      Step r definite t ((t.bury r.first).put (row.lease owner expiry))

theorem createExecutionJob_eq_ok {t t' : Table ι} {r : Readings} {known : ι → Bool} {runId : ι}
    {workflowStep : String} {checkpoint : Fields} {maxAttempts controlEpoch : ℤ} {job : Job ι}
    (h : createExecutionJob t r known runId workflowStep checkpoint maxAttempts controlEpoch
      = .ok (t', job)) :
    ∃ hnone : t.lookup job.runId = none, t' = t.insert job hnone ∧ job.Shaped ∧ job.status = .ready ∧
      job.runId = runId := by
  unfold createExecutionJob at h
  split at h
  · cases h
  split at h
  · cases h
  rename_i hmax
  split at h
  · cases h
  split at h
  · cases h
  split at h
  · cases h
  dsimp only at h
  split at h
  · rename_i hnone
    cases h
    exact ⟨hnone, rfl, Job.shaped_created (by omega), rfl, rfl⟩
  · cases h

theorem wakeExecutionJob_eq_ok {t t' : Table ι} {r : Readings} {runId : ι} {job : Job ι}
    (h : wakeExecutionJob t r runId = .ok (t', job)) :
    ∃ row, t.lookup runId = some row ∧ row.terminal = false ∧ t' = t.put (row.wake r.first) ∧
      job = row.wake r.first := by
  unfold wakeExecutionJob at h
  split at h
  · cases h
  rename_i row hl
  split at h
  · cases h
  · rename_i hterm
    cases h
    exact ⟨row, hl, by simpa using hterm, rfl, rfl⟩

theorem requireJobFence_eq_ok {t : Table ι} {now : Time} {c : Claim ι} {row : Job ι}
    (h : requireJobFence t now c = .ok row) :
    t.lookup c.runId = some row ∧ row.active now ∧ row.claim = c := by
  unfold requireJobFence at h
  split at h
  · cases h
  · rename_i j hj
    obtain ⟨rfl, hs, hg, he, expiry, hx, hlt⟩ := Job.fenced_eq_ok.mp h
    refine ⟨hj, Job.active_iff.mpr ⟨hs, expiry, hx, hlt⟩, ?_⟩
    rw [Job.claim, Table.runId_of_lookup hj, hg, he]

theorem fencedUpdate_eq_ok {t t' : Table ι} {r : Readings} {c : Claim ι} {change : Job ι → Job ι}
    {job : Job ι} (h : fencedUpdate t r c change = .ok (t', job)) :
    ∃ row, t.lookup c.runId = some row ∧ row.active r.first ∧ row.claim = c ∧
      t' = t.put (change row) ∧ job = change row := by
  unfold fencedUpdate at h
  cases hf : requireJobFence t r.first c with
  | error fault => simp [hf, Except.map] at h
  | ok row =>
    simp only [hf, Except.map, Except.ok.injEq, Prod.mk.injEq] at h
    obtain ⟨hl, ha, hc⟩ := requireJobFence_eq_ok hf
    exact ⟨row, hl, ha, hc, h.1.symm, h.2.symm⟩

theorem next_eq_some {t : Table ι} {now : Time} {row : Job ι} (h : t.next now = some row) :
    row ∈ t.rows ∧ row.claimable now := by
  simpa using List.argmin_mem h

theorem claimExecutionJob_eq_ok {t t' : Table ι} {r : Readings} {workerId : String} {leaseSeconds : PyFloat}
    {reply : Option (Job ι)} (h : claimExecutionJob t r workerId leaseSeconds = .ok (t', reply)) :
    (reply = none ∧ t' = t.bury r.first) ∨
      ∃ row, reply = some (row.lease workerId (after r.fourth leaseSeconds)) ∧
        t' = (t.bury r.first).put (row.lease workerId (after r.fourth leaseSeconds)) ∧
        (∀ j ∈ (t.bury r.first).rows, j.active r.second = false) ∧
        (t.bury r.first).lookup row.runId = some row ∧ row.claimable r.third := by
  unfold claimExecutionJob at h
  split at h
  · cases h
  split at h
  · cases h
  dsimp only at h
  split at h
  · cases h; exact .inl ⟨rfl, rfl⟩
  rename_i hfree
  split at h
  · cases h; exact .inl ⟨rfl, rfl⟩
  · rename_i row hrow
    cases h
    obtain ⟨hmem, hc⟩ := next_eq_some hrow
    exact .inr ⟨row, rfl, rfl, by simpa using hfree, Table.lookup_of_mem hmem, hc⟩

end Operations

end AutomlApi.Jobs
