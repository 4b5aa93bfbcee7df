import AutomlApi.Jobs.Table
import AutomlApi.Library.Runs

/-! Histories of the job table: calls of the seven operations by any number of
workers, and moments that pass, under a clock that never goes back. -/

namespace AutomlApi.Jobs

open Store (Value Fields)
open Runs (Run Free)

variable {ι : Type*}

inductive Op (ι : Type*) where
  | create (known : ι → Bool) (runId : ι) (workflowStep : String) (checkpoint : Fields)
      (maxAttempts controlEpoch : ℤ)
  | wake (runId : ι)
  | claim (workerId : String) (leaseSeconds : PyFloat)
  | renew (c : Claim ι) (leaseSeconds : PyFloat)
  | checkpoint (c : Claim ι) (workflowStep : String) (checkpoint : Fields) (nextStatus : JobStatus)
  | complete (c : Claim ι)
  | retry (c : Claim ι) (delaySeconds : PyFloat) (error : String)

namespace Op

/-- The claim that an operation presents at the fence. -/
def presents : Op ι → Option (Claim ι)
  | renew c _ | checkpoint c _ _ _ | complete c | retry c _ _ => some c
  | _ => none

/-- The operations that give the claim up: checkpoint, complete and retry. -/
def commits : Op ι → Option (Claim ι)
  | checkpoint c _ _ _ | complete c | retry c _ _ => some c
  | _ => none

/-- The arguments pass the checks that an operation makes before it opens its transaction. -/
def wellFormed : Op ι → Bool
  | renew _ leaseSeconds => leaseSeconds.isFinite ∧ ¬ leaseSeconds.le 0
  | checkpoint _ workflowStep fields nextStatus =>
    (nextStatus = .ready ∨ nextStatus = .waiting) ∧ workflowStep ≠ "" ∧ (Value.encodeFields fields).isSome
  | retry _ delaySeconds _ => ¬ delaySeconds.lt 0
  | _ => true

/-- The duration that an operation writes is no NaN; a renewal checks that of its own. -/
def definite : Op ι → Bool
  | claim _ seconds | retry _ seconds _ => !seconds.isNaN
  | _ => true

variable [LinearOrder ι]

/-- One call: the table it leaves and what it returns or raises. -/
def apply (t : Table ι) (r : Readings) : Op ι → Table ι × Except (Fault ι) (Option (Job ι))
  | create known runId workflowStep fields maxAttempts controlEpoch =>
    t.commit ((createExecutionJob t r known runId workflowStep fields maxAttempts controlEpoch).map
      (Prod.map id some))
  | wake runId => t.commit ((wakeExecutionJob t r runId).map (Prod.map id some))
  | claim workerId leaseSeconds => t.commit (claimExecutionJob t r workerId leaseSeconds)
  | renew c leaseSeconds => t.commit ((renewExecutionJob t r c leaseSeconds).map (Prod.map id some))
  | checkpoint c workflowStep fields nextStatus =>
    t.commit ((checkpointExecutionJob t r c workflowStep fields nextStatus).map (Prod.map id some))
  | complete c => t.commit ((completeExecutionJob t r c).map (Prod.map id some))
  | retry c delaySeconds error =>
    t.commit ((retryExecutionJob t r c delaySeconds error).map (Prod.map id some))

end Op

/-! ### One call is one step -/

section Steps

variable [LinearOrder ι] {t : Table ι} {r : Readings} {definite : Bool}

theorem commit_step {α β : Type*} {e : Effect ι α} {f : α → β}
    (h : ∀ t' a, e = .ok (t', a) → t.Step r definite t') :
    t.Step r definite (t.commit (e.map (Prod.map id f))).1 := by
  cases e with
  | error => exact .stays
  | ok p => exact h p.1 p.2 rfl

theorem fencedUpdate_step {c : Claim ι} {change : Job ι → Job ι}
    (hmove : ∀ j : Job ι, j.active r.first → j.Moves r definite (change j))
    (hgen : ∀ j : Job ι, (change j).leaseGeneration = j.leaseGeneration) {t' : Table ι} {job : Job ι}
    (h : fencedUpdate t r c change = .ok (t', job)) : t.Step r definite t' := by
  obtain ⟨row, hl, ha, -, rfl, rfl⟩ := fencedUpdate_eq_ok h
  have hm := hmove row ha
  exact .puts _ (by rwa [hm.runId, Table.runId_of_lookup hl]) hm (hgen row)

theorem apply_step (op : Op ι) : t.Step r op.definite (op.apply t r).1 := by
  cases op with
  | create known runId workflowStep fields maxAttempts controlEpoch =>
    refine commit_step fun t' job h => ?_
    obtain ⟨hnone, rfl, hs, hr, -⟩ := createExecutionJob_eq_ok h
    exact .inserts job hnone hs hr
  | wake runId =>
    refine commit_step fun t' job h => ?_
    obtain ⟨row, hl, hterm, rfl, -⟩ := wakeExecutionJob_eq_ok h
    obtain rfl := Table.runId_of_lookup hl
    exact .puts (row.wake r.first) hl (.woken hterm) rfl
  | claim workerId leaseSeconds =>
    simp only [Op.apply]
    cases h : claimExecutionJob t r workerId leaseSeconds with
    | error => exact .stays
    | ok p =>
      obtain ⟨t', reply⟩ := p
      rcases claimExecutionJob_eq_ok h with ⟨-, rfl⟩ | ⟨row, -, rfl, hfree, hrow, hc⟩
      · exact .buries
      · exact .leases row _ _ (fun hd => isSome_after (by simpa [Op.definite] using hd)) hfree hrow hc
  | renew c leaseSeconds =>
    refine commit_step fun t' job h => ?_
    unfold renewExecutionJob at h
    split at h
    · cases h
    · rename_i hfinite
      simp only [not_or, Bool.not_eq_false] at hfinite
      exact fencedUpdate_step
        (fun j hj => .renewed _ (isSome_after (isNaN_of_isFinite hfinite.1)) hj) (fun _ => rfl) h
  | checkpoint c workflowStep fields nextStatus =>
    refine commit_step fun t' job h => ?_
    unfold checkpointExecutionJob at h
    split at h
    · cases h
    rename_i hstatus
    split at h
    · cases h
    split at h
    · cases h
    · exact fencedUpdate_step
        (fun j hj => .checkpointed _ _ _ (Job.active_iff.mp hj).1 (by tauto)) (fun _ => rfl) h
  | complete c =>
    exact commit_step fun t' job h =>
      fencedUpdate_step (fun j hj => .completed (Job.active_iff.mp hj).1) (fun _ => rfl) h
  | retry c delaySeconds error =>
    refine commit_step fun t' job h => ?_
    unfold retryExecutionJob at h
    split at h
    · cases h
    · refine fencedUpdate_step (fun j hj => .retried _ _ (fun hd => ?_) (Job.active_iff.mp hj).1) (fun _ => rfl) h
      exact isSome_after (by simpa [Op.definite] using hd)

/-- The four operations behind the fence: arguments that fail their checks, or
one update of the row of the claim. -/
theorem apply_of_presents {op : Op ι} {c : Claim ι} (hop : op.presents = some c) :
    (op.wellFormed = false ∧ ∃ fault, fault.isFence = false ∧ op.apply t r = (t, .error fault)) ∨
      (op.wellFormed = true ∧ ∃ change : Job ι → Job ι,
        op.apply t r = t.commit ((fencedUpdate t r c change).map (Prod.map id some)) ∧
        ∀ j, (change j).claim = j.claim ∧ (op.commits = some c → (change j).status ≠ .leased) ∧
          (op.commits = none → (change j).status = j.status ∧ (change j).leaseExpiresAt.isSome)) := by
  cases op with
  | create | wake | claim => cases hop
  | renew c' leaseSeconds =>
    cases hop
    by_cases h : leaseSeconds.isFinite = false ∨ leaseSeconds.le 0
    · exact .inl ⟨by simpa [Op.wellFormed, or_iff_not_imp_left] using h, by
        simp only [Op.apply, renewExecutionJob, if_pos h, Table.commit, Except.map]
        exact ⟨_, rfl, rfl⟩⟩
    · have hfinite : leaseSeconds.isFinite := by simpa using (not_or.mp h).1
      refine .inr ⟨by simpa [Op.wellFormed] using h, (·.renew (after r.second leaseSeconds)), ?_, ?_⟩
      · simp only [Op.apply, renewExecutionJob, if_neg h]
      · exact fun j => ⟨rfl, by simp [Op.commits], fun _ => ⟨rfl, isSome_after (isNaN_of_isFinite hfinite)⟩⟩
  | checkpoint c' workflowStep fields nextStatus =>
    cases hop
    by_cases hs : nextStatus ≠ .ready ∧ nextStatus ≠ .waiting
    · exact .inl ⟨by simp [Op.wellFormed, hs], .value "next_status must be READY or WAITING", rfl, by
        simp [Op.apply, checkpointExecutionJob, hs, Table.commit, Except.map]⟩
    have hs' : nextStatus = .ready ∨ nextStatus = .waiting := by tauto
    by_cases hstep : workflowStep = ""
    · exact .inl ⟨by simp [Op.wellFormed, hstep], .value "workflow_step must not be empty", rfl, by
        simp [Op.apply, checkpointExecutionJob, hs, hstep, Table.commit, Except.map]⟩
    cases hf : Value.encodeFields fields with
    | none =>
      exact .inl ⟨by simp [Op.wellFormed, hf], .type "is not JSON serializable", rfl, by
        simp [Op.apply, checkpointExecutionJob, hs, hstep, hf, Table.commit, Except.map]⟩
    | some stored =>
      refine .inr ⟨by simp [Op.wellFormed, hs', hstep, hf],
        (·.putBack workflowStep stored nextStatus r.second), ?_, fun j => ⟨rfl, fun _ => ?_, by simp [Op.commits]⟩⟩
      · simp only [Op.apply, checkpointExecutionJob, if_neg hs, if_neg hstep, hf]
      · rcases hs' with rfl | rfl <;> simp [Job.putBack]
  | complete c' =>
    cases hop
    exact .inr ⟨rfl, Job.complete, rfl, fun j => ⟨rfl, fun _ => by simp [Job.complete], by simp [Op.commits]⟩⟩
  | retry c' delaySeconds error =>
    cases hop
    by_cases h : delaySeconds.lt 0
    · exact .inl ⟨by simpa [Op.wellFormed] using h, .value "delay_seconds must be non-negative", rfl, by
        simp [Op.apply, retryExecutionJob, h, Table.commit, Except.map]⟩
    · refine .inr ⟨by simpa [Op.wellFormed] using h, (·.retry (after r.second delaySeconds) error), ?_, ?_⟩
      · simp [Op.apply, retryExecutionJob, h]
      · exact fun j => ⟨rfl, fun _ => by simp only [Job.retry]; split <;> simp, by simp [Op.commits]⟩

theorem lookup_bury (t : Table ι) (now : Time) (id : ι) :
    (t.bury now).lookup id = (t.lookup id).map (Job.bury now) :=
  Table.lookup_update ..

/-- The row that a claim takes is in the table already. -/
theorem lookup_of_claimable {row : Job ι} (hrow : (t.bury r.first).lookup row.runId = some row)
    (h : row.claimable r.third) : t.lookup row.runId = some row := by
  rw [lookup_bury] at hrow
  obtain ⟨j, hj, hb⟩ := Option.map_eq_some_iff.mp hrow
  rw [hj, ← hb, Job.eq_of_bury_claimable (hb ▸ h)]

theorem Table.Step.row {t' : Table ι} (h : t.Step r definite t') (id : ι) :
    RowMoves r definite (t.lookup id) (t'.lookup id) := by
  cases h with
  | stays => exact .stays _
  | inserts job hnone hs hr =>
    rw [Table.lookup_insert]
    split
    · rename_i hid; rw [hid, hnone]; exact .created job hs hr
    · exact .stays _
  | puts k hj hm hg =>
    rw [Table.lookup_put]
    by_cases hid : id = k.runId
    · simp only [hid, hj, Option.map_some, if_pos]; exact .moved hm
    · simp only [hid, if_false, Option.map_id']; exact .stays _
  | buries =>
    rw [lookup_bury]
    cases t.lookup id with
    | none => exact .absent
    | some j => exact .moved (Job.bury_moves j)
  | leases row owner expiry hd hfree hrow hc =>
    have hl := lookup_of_claimable hrow hc
    rw [Table.lookup_put, lookup_bury]
    cases hj : t.lookup id with
    | none => exact .absent
    | some j =>
      by_cases hid : id = (row.lease owner expiry).runId
      · have : j = row := by
          rw [hid] at hj; exact Option.some.inj (hj.symm.trans hl)
        subst this
        simp only [hid, Option.map_some, if_pos]
        exact .moved (.claimed _ _ hd hc)
      · simp only [hid, Option.map_some, if_false]; exact .moved (Job.bury_moves j)

end Steps

/-! ### The step of a job -/

section WorkflowSteps

variable [LinearOrder ι] {t : Table ι} {r : Readings}

/-- The row after a call: the row before it, at its step or at one that a checkpoint
gives it, or the row that a creation inserts for a run that is known. -/
inductive Steps (t : Table ι) (runId : ι) (k : Job ι) : Op ι → Prop
  | keeps {j : Job ι} (op : Op ι) (hj : t.lookup runId = some j) (h : k.workflowStep = j.workflowStep) :
      Steps t runId k op
  | moves {j : Job ι} (c : Claim ι) (workflowStep : String) (fields : Fields) (status : JobStatus)
      (hc : c.runId = runId) (hj : t.lookup runId = some j) (h : k.workflowStep = workflowStep) :
      Steps t runId k (.checkpoint c workflowStep fields status)
  | starts (known : ι → Bool) (workflowStep : String) (fields : Fields) (maxAttempts controlEpoch : ℤ)
      (hk : known runId = true) (hnone : t.lookup runId = none) (h : k.workflowStep = workflowStep) :
      Steps t runId k (.create known runId workflowStep fields maxAttempts controlEpoch)

theorem fencedUpdate_steps {c : Claim ι} {change : Job ι → Job ι} {runId : ι} {k : Job ι}
    (h : (t.commit ((fencedUpdate t r c change).map (Prod.map id some))).1.lookup runId = some k)
    (hid : ∀ j, (change j).runId = j.runId) {op : Op ι}
    (hstep : ∀ j, t.lookup c.runId = some j → c.runId = runId → Steps t runId (change j) op)
    (hkeeps : ∀ j, t.lookup runId = some j → Steps t runId j op) :
    Steps t runId k op := by
  cases hf : fencedUpdate t r c change with
  | error fault => rw [hf] at h; exact hkeeps k h
  | ok p =>
    obtain ⟨t', job⟩ := p
    obtain ⟨row, hl, -, -, rfl, rfl⟩ := fencedUpdate_eq_ok hf
    rw [hf] at h
    have hk : (t.put (change row)).lookup runId = some k := h
    rw [Table.lookup_put] at hk
    obtain ⟨j, hj, hjk⟩ := Option.map_eq_some_iff.mp hk
    split at hjk
    · rename_i hrow
      rw [hid, Table.runId_of_lookup hl] at hrow
      rw [← hjk]
      exact hstep row hl hrow.symm
    · rw [← hjk]
      exact hkeeps j hj

theorem createExecutionJob_starts {t' : Table ι} {known : ι → Bool} {runId : ι} {workflowStep : String}
    {fields : Fields} {maxAttempts controlEpoch : ℤ} {job : Job ι}
    (h : createExecutionJob t r known runId workflowStep fields maxAttempts controlEpoch = .ok (t', job)) :
    known runId = true ∧ job.workflowStep = workflowStep := by
  unfold createExecutionJob at h
  split at h
  · cases h
  split at h
  · cases h
  split at h
  · cases h
  split at h
  · cases h
  rename_i hknown
  split at h
  · cases h
  dsimp only at h
  split at h
  · cases h
    exact ⟨by simpa using hknown, rfl⟩
  · cases h

/-- Where the step of a job comes from. -/
theorem steps_apply (op : Op ι) {runId : ι} {k : Job ι} (h : (op.apply t r).1.lookup runId = some k) :
    Steps t runId k op := by
  have hkeeps : ∀ j, t.lookup runId = some j → Steps t runId j op := fun j hj => .keeps op hj rfl
  cases op with
  | create known id' workflowStep fields maxAttempts controlEpoch =>
    simp only [Op.apply] at h
    cases hc : createExecutionJob t r known id' workflowStep fields maxAttempts controlEpoch with
    | error fault => rw [hc] at h; exact hkeeps k h
    | ok p =>
      obtain ⟨t', job⟩ := p
      obtain ⟨hnone, rfl, -, -, rfl⟩ := createExecutionJob_eq_ok hc
      rw [hc] at h
      have hk : (t.insert job hnone).lookup runId = some k := h
      rw [Table.lookup_insert] at hk
      split at hk
      · rename_i hrun
        cases hk
        obtain ⟨hknown, hstep⟩ := createExecutionJob_starts hc
        subst hrun
        exact .starts _ _ _ _ _ hknown hnone hstep
      · exact hkeeps k hk
  | wake id' =>
    simp only [Op.apply] at h
    cases hw : wakeExecutionJob t r id' with
    | error fault => rw [hw] at h; exact hkeeps k h
    | ok p =>
      obtain ⟨t', job⟩ := p
      obtain ⟨row, hl, -, rfl, -⟩ := wakeExecutionJob_eq_ok hw
      rw [hw] at h
      have hk : (t.put (row.wake r.first)).lookup runId = some k := h
      rw [Table.lookup_put] at hk
      obtain ⟨j, hj, hjk⟩ := Option.map_eq_some_iff.mp hk
      split at hjk
      · rename_i hrow
        rw [show (row.wake r.first).runId = row.runId from rfl, Table.runId_of_lookup hl] at hrow
        exact .keeps _ (hrow ▸ hl) (by rw [← hjk]; rfl)
      · exact hjk ▸ hkeeps j hj
  | claim workerId leaseSeconds =>
    simp only [Op.apply] at h
    have hbury : ∀ k', (t.bury r.first).lookup runId = some k' → ∃ j, t.lookup runId = some j ∧
        k'.workflowStep = j.workflowStep := fun k' hk' => by
      rw [Table.bury, Table.lookup_update] at hk'
      obtain ⟨j, hj, rfl⟩ := Option.map_eq_some_iff.mp hk'
      refine ⟨j, hj, ?_⟩
      unfold Job.bury
      split <;> rfl
    cases hc : claimExecutionJob t r workerId leaseSeconds with
    | error fault => rw [hc] at h; exact hkeeps k h
    | ok p =>
      obtain ⟨t', reply⟩ := p
      rw [hc] at h
      rcases claimExecutionJob_eq_ok hc with ⟨-, rfl⟩ | ⟨row, -, rfl, -, hrow, -⟩
      · obtain ⟨j, hj, hjk⟩ := hbury k h
        exact .keeps _ hj hjk
      · have hk : ((t.bury r.first).put (row.lease workerId (after r.fourth leaseSeconds))).lookup runId = some k := h
        rw [Table.lookup_put] at hk
        obtain ⟨j', hj', hjk⟩ := Option.map_eq_some_iff.mp hk
        obtain ⟨j, hj, hstep⟩ := hbury j' hj'
        refine .keeps _ hj (Eq.trans ?_ hstep)
        split at hjk
        · rename_i hid
          rw [show (row.lease workerId (after r.fourth leaseSeconds)).runId = row.runId from rfl] at hid
          rw [hid, hrow] at hj'
          cases hj'
          rw [← hjk]
          rfl
        · rw [hjk]
  | renew c leaseSeconds =>
    simp only [Op.apply] at h
    unfold renewExecutionJob at h
    split at h
    · exact hkeeps k h
    · exact fencedUpdate_steps h (fun _ => rfl) (fun j hj hc => .keeps (j := j) _ (hc ▸ hj) rfl) hkeeps
  | checkpoint c workflowStep fields nextStatus =>
    simp only [Op.apply] at h
    unfold checkpointExecutionJob at h
    split at h
    · exact hkeeps k h
    split at h
    · exact hkeeps k h
    split at h
    · exact hkeeps k h
    · exact fencedUpdate_steps h (fun _ => rfl) (fun j hj hc => .moves c _ _ _ hc (hc ▸ hj) rfl) hkeeps
  | complete c =>
    simp only [Op.apply] at h
    exact fencedUpdate_steps h (fun _ => rfl) (fun j hj hc => .keeps (j := j) _ (hc ▸ hj) rfl) hkeeps
  | retry c delaySeconds error =>
    simp only [Op.apply] at h
    unfold retryExecutionJob at h
    split at h
    · exact hkeeps k h
    · exact fencedUpdate_steps h (fun _ => rfl) (fun j hj hc => .keeps (j := j) _ (hc ▸ hj) rfl) hkeeps

/-- No call takes a row away. -/
theorem isSome_apply (op : Op ι) {runId : ι} (h : (t.lookup runId).isSome) :
    ((op.apply t r).1.lookup runId).isSome := by
  have hrow := (apply_step (t := t) (r := r) op).row runId
  obtain ⟨j, hj⟩ := Option.isSome_iff_exists.mp h
  rw [hj] at hrow
  generalize (op.apply t r).1.lookup runId = o at hrow ⊢
  cases hrow with
  | moved => rfl

theorem shaped_apply {op : Op ι} (hop : op.definite) {runId : ι} (h : ∀ j, t.lookup runId = some j → j.Shaped) {k : Job ι}
    (hk : (op.apply t r).1.lookup runId = some k) : k.Shaped := by
  have hrow := (apply_step (t := t) (r := r) op).row runId
  rw [hk, hop] at hrow
  cases hj : t.lookup runId with
  | none =>
    rw [hj] at hrow
    cases hrow with
    | created _ hs => exact hs
  | some j =>
    rw [hj] at hrow
    cases hrow with
    | moved hm => exact hm.shaped (h j hj)

/-! ### What the replies tell -/

omit [LinearOrder ι] in
theorem commit_reply {α : Type*} {e : Effect ι α} {a : α} (h : (t.commit e).2 = .ok a) : e = .ok ((t.commit e).1, a) := by
  cases e with
  | error fault => cases h
  | ok p =>
    cases h
    rfl

/-- The job that a claim returns is the row that it leaves. -/
theorem lookup_of_claimed {workerId : String} {leaseSeconds : PyFloat} {job : Job ι}
    (h : ((Op.claim workerId leaseSeconds).apply t r).2 = .ok (some job)) :
    ((Op.claim workerId leaseSeconds).apply t r).1.lookup job.runId = some job := by
  rcases claimExecutionJob_eq_ok (commit_reply h) with ⟨hnone, -⟩ | ⟨row, hsome, htable, -, hrow, -⟩
  · cases hnone
  · cases hsome
    rw [show ((Op.claim workerId leaseSeconds).apply t r).1 = _ from htable, Table.lookup_put]
    simp [Job.lease, hrow]

/-- A renewal of a shaped row can only fail at the fence. -/
theorem isFence_of_renew {c : Claim ι} {leaseSeconds : PyFloat} (hok : (Op.renew c leaseSeconds).wellFormed) {row : Job ι}
    (hrow : t.lookup c.runId = some row) (hs : row.Shaped) {fault : Fault ι}
    (h : ((Op.renew c leaseSeconds).apply t r).2 = .error fault) : fault.isFence := by
  have hfenced : row.fenced r.first c = .error fault := by
    have hpos : ¬ (leaseSeconds.isFinite = false ∨ leaseSeconds.le 0) := by simpa [Op.wellFormed] using hok
    simp only [Op.apply, renewExecutionJob, if_neg hpos, fencedUpdate, requireJobFence, hrow] at h
    cases hf : row.fenced r.first c with
    | ok j => rw [hf] at h; cases h
    | error fault' => rw [hf] at h; cases h; rfl
  unfold Job.fenced at hfenced
  split at hfenced
  · cases hfenced; rfl
  · rename_i hleased
    simp only [ne_eq, not_or, not_not] at hleased
    obtain ⟨expiry, hx⟩ := Option.isSome_iff_exists.mp (hs.leased hleased.1).2
    rw [hx] at hfenced
    dsimp only at hfenced
    split at hfenced
    · cases hfenced; rfl
    · cases hfenced

/-- A retry only buries a job without an attempt left. -/
theorem exhausted_of_retry {c : Claim ι} {delaySeconds : PyFloat} {error : String} {k : Job ι}
    (h : ((Op.retry c delaySeconds error).apply t r).2 = .ok (some k)) (hk : k.status = .dead) :
    ∃ row, t.lookup c.runId = some row ∧ row.maxAttempts ≤ row.attempt := by
  have heq := commit_reply h
  unfold retryExecutionJob at heq
  split at heq
  · cases heq
  · cases hf : fencedUpdate t r c (·.retry (after r.second delaySeconds) error) with
    | error fault => rw [hf] at heq; cases heq
    | ok p =>
      obtain ⟨t', job⟩ := p
      obtain ⟨row, hrow, -, -, -, hjob⟩ := fencedUpdate_eq_ok hf
      rw [hf] at heq
      cases heq
      refine ⟨row, hrow, ?_⟩
      by_contra hleft
      rw [hjob] at hk
      simp [Job.retry, hleft] at hk

/-! ### The death of a job -/

/-- The operations that may bury a row. -/
def Op.deadly : Op ι → Bool
  | .claim .. | .retry .. => true
  | _ => false

/-- An update behind the fence buries no row that it does not bury on its own. -/
theorem dead_of_fencedUpdate {c : Claim ι} {change : Job ι → Job ι} {runId : ι} {k : Job ι}
    (h : (t.commit ((fencedUpdate t r c change).map (Prod.map id some))).1.lookup runId = some k) (hk : k.status = .dead)
    (hchange : ∀ j : Job ι, j.status = .leased → (change j).status ≠ .dead) : t.lookup runId = some k := by
  cases hf : fencedUpdate t r c change with
  | error fault =>
    rw [hf] at h
    exact h
  | ok p =>
    obtain ⟨t', job⟩ := p
    obtain ⟨row, hl, hactive, -, rfl, rfl⟩ := fencedUpdate_eq_ok hf
    rw [hf] at h
    have hrow : (t.put (change row)).lookup runId = some k := h
    rw [Table.lookup_put] at hrow
    obtain ⟨j, hj, hjk⟩ := Option.map_eq_some_iff.mp hrow
    split at hjk
    · rw [← hjk] at hk
      exact absurd hk (hchange row (Job.active_iff.mp hactive).1)
    · rw [← hjk, hj]

/-- A row that is dead was dead before any other operation. -/
theorem dead_of_apply {op : Op ι} (hop : op.deadly = false) {runId : ι} {k : Job ι}
    (h : (op.apply t r).1.lookup runId = some k) (hk : k.status = .dead) : t.lookup runId = some k := by
  cases op with
  | create known id' workflowStep fields maxAttempts controlEpoch =>
    simp only [Op.apply] at h
    cases hc : createExecutionJob t r known id' workflowStep fields maxAttempts controlEpoch with
    | error fault =>
      rw [hc] at h
      exact h
    | ok p =>
      obtain ⟨t', job⟩ := p
      obtain ⟨hnone, rfl, -, hready, -⟩ := createExecutionJob_eq_ok hc
      rw [hc] at h
      have hrow : (t.insert job hnone).lookup runId = some k := h
      rw [Table.lookup_insert] at hrow
      split at hrow
      · cases hrow
        cases hready.symm.trans hk
      · exact hrow
  | wake id' =>
    simp only [Op.apply] at h
    cases hw : wakeExecutionJob t r id' with
    | error fault =>
      rw [hw] at h
      exact h
    | ok p =>
      obtain ⟨t', job⟩ := p
      obtain ⟨row, hl, -, rfl, -⟩ := wakeExecutionJob_eq_ok hw
      rw [hw] at h
      have hrow : (t.put (row.wake r.first)).lookup runId = some k := h
      rw [Table.lookup_put] at hrow
      obtain ⟨j, hj, hjk⟩ := Option.map_eq_some_iff.mp hrow
      split at hjk
      · rw [← hjk] at hk
        cases hk
      · rw [← hjk, hj]
  | claim | retry => cases hop
  | renew c leaseSeconds =>
    simp only [Op.apply] at h
    unfold renewExecutionJob at h
    split at h
    · exact h
    · exact dead_of_fencedUpdate h hk fun j hj hdead => by cases hj.symm.trans hdead
  | checkpoint c workflowStep fields nextStatus =>
    simp only [Op.apply] at h
    unfold checkpointExecutionJob at h
    split at h
    · exact h
    rename_i hstatus
    split at h
    · exact h
    split at h
    · exact h
    · refine dead_of_fencedUpdate h hk fun j hj hdead => hstatus ?_
      have hdead : nextStatus = .dead := hdead
      rw [hdead]
      exact ⟨nofun, nofun⟩
  | complete c =>
    simp only [Op.apply] at h
    exact dead_of_fencedUpdate h hk fun j hj => nofun

/-- A row that a claim leaves dead was dead before, or the claim buries it. -/
theorem dead_of_claim {workerId : String} {leaseSeconds : PyFloat} {runId : ι} {k : Job ι}
    (h : ((Op.claim workerId leaseSeconds).apply t r).1.lookup runId = some k) (hk : k.status = .dead) :
    ∃ j, t.lookup runId = some j ∧ (j.status = .dead ∨ j.exhausted r.first) := by
  have hbury : (t.bury r.first).lookup runId = some k → ∃ j, t.lookup runId = some j ∧
      (j.status = .dead ∨ j.exhausted r.first) := by
    intro hrow
    rw [lookup_bury] at hrow
    obtain ⟨j, hj, rfl⟩ := Option.map_eq_some_iff.mp hrow
    refine ⟨j, hj, ?_⟩
    unfold Job.bury at hk
    split at hk
    · rename_i hex
      exact .inr hex
    · exact .inl hk
  simp only [Op.apply] at h
  cases hc : claimExecutionJob t r workerId leaseSeconds with
  | error fault =>
    rw [hc] at h
    exact ⟨k, h, .inl hk⟩
  | ok p =>
    obtain ⟨t', reply⟩ := p
    rw [hc] at h
    rcases claimExecutionJob_eq_ok hc with ⟨-, rfl⟩ | ⟨row, -, rfl, -, -, -⟩
    · exact hbury h
    · have hrow : ((t.bury r.first).put (row.lease workerId (after r.fourth leaseSeconds))).lookup runId = some k := h
      rw [Table.lookup_put] at hrow
      obtain ⟨j, hj, hjk⟩ := Option.map_eq_some_iff.mp hrow
      split at hjk
      · rw [← hjk] at hk
        cases hk
      · exact hbury (hjk ▸ hj)

/-- What a retry that succeeds does to the table. -/
theorem put_of_retry {c : Claim ι} {delaySeconds : PyFloat} {error : String} {reply : Option (Job ι)}
    (h : ((Op.retry c delaySeconds error).apply t r).2 = .ok reply) :
    ∃ k, reply = some k ∧ ((Op.retry c delaySeconds error).apply t r).1 = t.put k ∧ k.runId = c.runId := by
  have heq := commit_reply h
  unfold retryExecutionJob at heq
  split at heq
  · cases heq
  · rename_i hdelay
    cases hf : fencedUpdate t r c (·.retry (after r.second delaySeconds) error) with
    | error fault =>
      rw [hf] at heq
      cases heq
    | ok p =>
      obtain ⟨t', job⟩ := p
      obtain ⟨row, hrow, -, -, rfl, rfl⟩ := fencedUpdate_eq_ok hf
      refine ⟨row.retry (after r.second delaySeconds) error, ?_, ?_, ?_⟩
      · rw [hf] at heq
        exact (Prod.mk.inj (Except.ok.inj heq)).2.symm
      · simp only [Op.apply, retryExecutionJob, if_neg hdelay, hf]
        rfl
      · exact (Table.runId_of_lookup hrow : row.runId = c.runId)

end WorkflowSteps

/-! ### Histories -/

/-- The table with the last moment that the clock has shown. -/
structure JobStore (ι : Type*) where
  table : Table ι
  clock : Time

inductive Event (ι : Type*) where
  | call (r : Readings) (op : Op ι)
  | tick (now : Time)

/-- No duration that the event writes is a NaN. -/
def Event.definite : Event ι → Bool
  | .call _ op => op.definite
  | .tick _ => true

namespace JobStore

variable [LinearOrder ι]

def init (start : Time) : JobStore ι := ⟨.empty, start⟩

/-- The clock does not go back. -/
def step (s : JobStore ι) : Event ι → Option (JobStore ι)
  | .call r op => if s.clock ≤ r.first then some ⟨(op.apply s.table r).1, r.fourth⟩ else none
  | .tick now => if s.clock ≤ now then some ⟨s.table, now⟩ else none

theorem step_eq_some {s u : JobStore ι} {e : Event ι} (h : s.step e = some u) :
    (∃ r op, e = .call r op ∧ s.clock ≤ r.first ∧ u.table = (op.apply s.table r).1 ∧
      u.clock = r.fourth) ∨ ∃ now, e = .tick now ∧ s.clock ≤ now ∧ u = ⟨s.table, now⟩ := by
  cases e with
  | call r op =>
    simp only [step, Option.ite_none_right_eq_some, Option.some.injEq] at h
    obtain ⟨hle, rfl⟩ := h
    exact .inl ⟨r, op, rfl, hle, rfl, rfl⟩
  | tick now =>
    simp only [step, Option.ite_none_right_eq_some, Option.some.injEq] at h
    obtain ⟨hle, rfl⟩ := h
    exact .inr ⟨now, rfl, hle, rfl⟩

end JobStore

end AutomlApi.Jobs
