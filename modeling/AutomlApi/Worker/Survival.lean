import AutomlApi.Worker.Loop

/-! When the polling loop survives. A `JobFenceError` ends it, whether it comes from
the heartbeat, from the handler, or from the commit after the handler; so it
goes on exactly as long as nothing takes the claim it holds away. -/

namespace AutomlApi.Worker

open Store (Value)
open Jobs
open Runs (Run Free exec run_of_exec)

namespace LocalExecutionWorker

variable {ι : Type*} [LinearOrder ι]

/-- The outcomes of a handler that do not end the loop by themselves. -/
def settles : Outcome → Bool
  | .checkpoint result => (Value.encodeFields result.checkpoint).isSome
  | .fenceRaised | .cancelled => false
  | .complete | .raised _ => true

/-- Nothing takes the claim in hand away: no wake of its run, no other party that
claims it or gives it up, and no renewal or commit after its lease has run out.
The handler ends by itself and the dead-job handler does not raise. -/
def undisturbed (s : State ι) : Event ι → Bool
  | .other (.call r op) => s.phase.job.all fun job => op.spares s.jobs.table r job.claim
  | .heartbeat r | .settle r => s.phase.job.all fun job => s.jobs.table.unexpired job.claim r.first
  | .finish outcome => settles outcome
  | .notified raises => !raises
  | _ => true

/-- The histories that disturb no claim. -/
abbrev Undisturbed (s : State ι) (e : Event ι) : Prop := undisturbed s e

/-- The loop has not died, and holds the claim of the job it handles. -/
structure Inv (s : State ι) : Prop where
  alive : s.phase.exit = none
  current : ∀ job, s.phase.job = some job → s.jobs.table.Current job.claim
  settled : ∀ job outcome, s.phase = .settling job outcome → settles outcome
  notified : s.phase ≠ .notifying true

theorem inv_waiting {jobs : JobStore ι} : Inv ⟨jobs, .waiting⟩ :=
  ⟨rfl, by simp [Phase.job], by simp, by simp⟩

theorem inv_stopped {jobs : JobStore ι} : Inv ⟨jobs, .stopped⟩ :=
  ⟨rfl, by simp [Phase.job], by simp, by simp⟩

/-- The claim in hand passes the fence of one update. -/
theorem fencedUpdate_ok {t : Table ι} {r : Readings} {c : Claim ι} (hc : t.Current c)
    (hx : t.unexpired c r.first) (change : Job ι → Job ι) :
    ∃ t' job, fencedUpdate t r c change = .ok (t', job) := by
  obtain ⟨row, -, -, h⟩ := fencedUpdate_of_current hc hx change
  exact ⟨_, _, h⟩

variable {w : LocalExecutionWorker}

theorem inv_claim {t : Table ι} {r : Readings} (clock : Time) :
    Inv (⟨⟨(w.claim t r).1, clock⟩, (w.claim t r).2⟩ : State ι) := by
  unfold claim
  cases h : claimExecutionJob t r w.workerId w.leaseSeconds with
  | error fault =>
    have hpos := w.leaseSeconds_pos
    simp only [claimExecutionJob, w.workerId_ne, if_false, PyFloat.le, not_le.mpr hpos, decide_false,
      Bool.false_eq_true] at h
    split at h
    · cases h
    · split at h <;> cases h
  | ok p =>
    obtain ⟨t', reply⟩ := p
    rcases claimExecutionJob_eq_ok h with ⟨rfl, -⟩ | ⟨row, rfl, rfl, -, hrow, -⟩
    · exact inv_waiting
    · refine ⟨rfl, ?_, by simp, by simp⟩
      intro job hjob
      cases hjob
      refine current_put ?_ rfl rfl rfl
      rw [show (row.lease w.workerId (after r.fourth w.leaseSeconds)).claim.runId = row.runId from rfl, hrow]
      rfl

theorem inv_renew {t : Table ι} {r : Readings} {job : Job ι} {phase : Phase ι} {clock clock' : Time}
    (hi : Inv ⟨⟨t, clock⟩, phase⟩) (hj : phase.job = some job) (hx : t.unexpired job.claim r.first) :
    Inv ⟨⟨(w.renew t r job phase).1, clock'⟩, (w.renew t r job phase).2⟩ := by
  have hcur := hi.current job hj
  obtain ⟨t', job', h⟩ := fencedUpdate_ok hcur hx (·.renew (after r.second w.leaseSeconds))
  have hok : renewExecutionJob t r job.claim w.leaseSeconds = .ok (t', job') := by
    rw [renewExecutionJob, if_neg (by simp [PyFloat.isFinite, PyFloat.le, w.leaseSeconds_pos]), h]
  have hcur' : t'.Current job.claim := by
    have hrenew : ((Op.renew job.claim w.leaseSeconds).apply t r).1.Current job.claim :=
      current_presents rfl hcur (by simp [Op.commits])
    simpa [Op.apply, hok, Except.map, Table.commit] using hrenew
  rw [renew, hok]
  refine ⟨hi.alive, fun j hj' => ?_, hi.settled, hi.notified⟩
  have hsame : some job = some j := hj.symm.trans hj'
  cases hsame
  exact hcur'

theorem inv_notify (t : Table ι) (clock : Time) (updated : Job ι) :
    Inv (⟨⟨t, clock⟩, w.notify updated false⟩ : State ι) := by
  unfold notify
  split
  · exact ⟨rfl, by simp [Phase.job], by simp, by simp⟩
  · exact inv_waiting

theorem inv_settle {t : Table ι} {r : Readings} {job : Job ι} {outcome : Outcome} {clock clock' : Time}
    (hi : Inv ⟨⟨t, clock⟩, .settling job outcome⟩) (hx : t.unexpired job.claim r.first) :
    Inv ⟨⟨(w.settle t r job outcome).1, clock'⟩, (w.settle t r job outcome).2⟩ := by
  have pass := fencedUpdate_ok (hi.current job rfl) hx
  have hsettles := hi.settled job outcome rfl
  cases outcome with
  | complete =>
    obtain ⟨t', job', h⟩ := pass Job.complete
    simp only [settle, completeExecutionJob, h]
    exact inv_waiting
  | checkpoint result =>
    obtain ⟨stored, hstored⟩ := Option.isSome_iff_exists.mp hsettles
    obtain ⟨t', job', h⟩ := pass (·.putBack result.nextStep stored result.status r.second)
    have hstatus : ¬ (result.status ≠ .ready ∧ result.status ≠ .waiting) := by
      have := result.status_mem
      tauto
    simp only [settle, checkpointExecutionJob, if_neg hstatus, if_neg result.nextStep_ne, hstored, h]
    exact inv_waiting
  | raised error =>
    obtain ⟨t', job', h⟩ := pass (·.retry (after r.second (w.retryDelay job.attempt)) error)
    simp only [settle, retryExecutionJob, PyFloat.lt, decide_eq_true_eq,
      if_neg (not_lt.mpr (w.retryDelay_nonneg job.attempt)), h]
    exact inv_notify ..
  | fenceRaised => cases hsettles
  | cancelled => cases hsettles

omit [LinearOrder ι] in
theorem act_eq_some {s u : State ι} {r : Readings} {p : Table ι × Phase ι} (h : act s r p = some u) :
    s.jobs.clock ≤ r.first ∧ u = ⟨⟨p.1, r.fourth⟩, p.2⟩ := by
  simpa [act, eq_comm] using h

theorem inv_other {s : State ι} {e : Jobs.Event ι} {jobs : JobStore ι} (hi : Inv s)
    (hok : Undisturbed s (.other e)) (h : s.jobs.step e = some jobs) : Inv ⟨jobs, s.phase⟩ := by
  refine ⟨hi.alive, fun job hjob => ?_, hi.settled, hi.notified⟩
  have hcur := hi.current job hjob
  rcases JobStore.step_eq_some h with ⟨r, op, rfl, -, ht, -⟩ | ⟨now, -, -, rfl⟩
  · rw [ht]
    refine current_apply op hcur ?_
    simpa [Undisturbed, undisturbed, hjob] using hok
  · exact hcur

theorem inv_step {s u : State ι} {e : Event ι} (hi : Inv s) (hok : Undisturbed s e)
    (h : w.step s e = some u) : Inv u := by
  obtain ⟨jobs, phase⟩ := s
  cases e with
  | other e =>
    obtain ⟨jobs', hj, rfl⟩ := Option.map_eq_some_iff.mp h
    exact inv_other hi hok hj
  | poll r =>
    cases phase with
    | waiting => obtain ⟨-, rfl⟩ := act_eq_some h; exact inv_claim _
    | _ => cases h
  | heartbeat r =>
    obtain ⟨job, hjob, hact⟩ := Option.bind_eq_some_iff.mp h
    obtain ⟨-, rfl⟩ := act_eq_some hact
    exact inv_renew hi hjob (by simpa [Undisturbed, undisturbed, hjob] using hok)
  | finish outcome =>
    cases phase with
    | handling job =>
      cases h
      exact ⟨rfl, hi.current, fun _ _ heq => by cases heq; exact hok, by simp⟩
    | _ => cases h
  | settle r =>
    cases phase with
    | settling job outcome =>
      obtain ⟨-, rfl⟩ := act_eq_some h
      exact inv_settle hi hok
    | _ => cases h
  | notified raises =>
    cases phase with
    | notifying reraise =>
      cases h
      cases reraise with
      | true => exact absurd rfl hi.notified
      | false => cases raises <;> [exact inv_waiting; cases hok]
    | _ => cases h
  | stop =>
    cases phase with
    | handling job | settling job _ => cases h; exact ⟨rfl, by simp [Phase.job], by simp, by simp⟩
    | waiting | notifying _ => cases h; exact inv_stopped
    | _ => cases h
  | unwind r =>
    cases phase with
    | stopping job => obtain ⟨-, rfl⟩ := act_eq_some h; exact inv_stopped
    | _ => cases h

omit [LinearOrder ι] in
theorem ordinary_notify (updated : Job ι) (reraise : Bool) : (w.notify updated reraise).ordinary := by
  unfold notify
  split
  · exact rfl
  split
  · exact rfl
  · exact rfl

theorem ordinary_claim (t : Table ι) (r : Readings) : (w.claim t r).2.ordinary := by
  unfold claim
  split
  · exact rfl
  · exact rfl
  · exact rfl

theorem ordinary_renew {t : Table ι} {r : Readings} {job : Job ι} {phase : Phase ι} (h : phase.ordinary) :
    (w.renew t r job phase).2.ordinary := by
  unfold renew
  split
  · exact h
  split
  · exact rfl
  · exact rfl

theorem ordinary_settle (t : Table ι) (r : Readings) (job : Job ι) (outcome : Outcome) :
    (w.settle t r job outcome).2.ordinary := by
  cases outcome <;> simp only [settle]
  case fenceRaised => exact rfl
  case complete => split <;> [exact rfl; exact rfl]
  case checkpoint => split <;> [exact rfl; exact rfl]
  case raised => split <;> [exact ordinary_notify ..; exact rfl]
  case cancelled =>
    split
    · exact ordinary_notify ..
    · split <;> exact rfl

/-- Only `stop()` ends a running loop in any other way than by an exception. -/
theorem ordinary_step {s u : State ι} {e : Event ι} (h : w.step s e = some u) (hs : s.phase.running)
    (he : e ≠ .stop) : u.phase.ordinary := by
  obtain ⟨jobs, phase⟩ := s
  cases e with
  | other e =>
    obtain ⟨jobs', -, rfl⟩ := Option.map_eq_some_iff.mp h
    simpa [Phase.ordinary] using .inl hs
  | poll r =>
    cases phase with
    | waiting => obtain ⟨-, rfl⟩ := act_eq_some h; exact ordinary_claim ..
    | _ => cases h
  | heartbeat r =>
    obtain ⟨job, -, hact⟩ := Option.bind_eq_some_iff.mp h
    obtain ⟨-, rfl⟩ := act_eq_some hact
    exact ordinary_renew (by simpa [Phase.ordinary] using .inl hs)
  | finish outcome =>
    cases phase with
    | handling job => cases h; exact rfl
    | _ => cases h
  | settle r =>
    cases phase with
    | settling job outcome => obtain ⟨-, rfl⟩ := act_eq_some h; exact ordinary_settle ..
    | _ => cases h
  | notified raises =>
    cases phase with
    | notifying reraise => cases h; cases raises <;> cases reraise <;> rfl
    | _ => cases h
  | stop => exact absurd rfl he
  | unwind r =>
    cases phase with
    | stopping job => cases hs
    | _ => cases h

theorem running_run {s u : State ι} {es : List (Event ι)} (h : Run w.step Undisturbed s es u) (hi : Inv s)
    (hs : s.phase.running) : u.phase.running ∨ .stop ∈ es := by
  induction h with
  | nil => exact .inl hs
  | @cons s v u e es hok hstep rest ih =>
    have hv := inv_step hi hok hstep
    by_cases he : e = .stop
    · exact .inr (he ▸ List.mem_cons_self)
    · have hrun : v.phase.running := by
        simpa [Phase.ordinary, hv.alive] using ordinary_step hstep hs he
      exact (ih hv hrun).imp_right (List.mem_cons_of_mem e)

/-! ### The polling loop -/

/-- A worker with the defaults of its constructor. -/
def standard : LocalExecutionWorker where
  workerId := "local"
  leaseSeconds := 30
  retryBaseSeconds := 1
  retryMaxSeconds := 60
  notifiesDead := true
  workerId_ne := by decide
  leaseSeconds_pos := by norm_num
  retryBaseSeconds_nonneg := by norm_num
  retryMaxSeconds_nonneg := by norm_num

/-- In a history that disturbs no claim, no exception ends the loop, and nothing but
`stop()` does. -/
theorem poll_loop_survives {start : Time} {es : List (Event ι)} {s : State ι}
    (h : Run w.step Undisturbed (init start) es s) :
    s.phase.exit = none ∧ (s.phase.running ∨ .stop ∈ es) :=
  ⟨(h.invariant (fun _ _ _ hi hok hu => inv_step hi hok hu) inv_waiting).alive, running_run h inv_waiting rfl⟩

/-- A job is created, claimed and woken while its handler runs; the next heartbeat
raises a `JobFenceError` that nothing catches. -/
theorem poll_loop_dies :
    ¬ ∀ (w : LocalExecutionWorker) (start : Time) (es : List (Event ℕ)) (s : State ℕ),
      Run w.step Free (init start) es s → s.phase.exit = none ∧ (s.phase.running ∨ .stop ∈ es) := by
  intro hall
  have hexit : (exec standard.step Free (init 0 : State ℕ)
      [.other (.call (.at 0) (.create (fun _ => true) 1 "TRAIN" [] 5 0)), .poll (.at 1),
        .other (.call (.at 1) (.wake 1)), .heartbeat (.at 1)]).map (fun s => s.phase.exit.isSome)
      = some true := by decide +kernel
  obtain ⟨s, hs, hdead⟩ := Option.map_eq_some_iff.mp hexit
  rw [(hall _ _ _ _ (run_of_exec hs)).1] at hdead
  cases hdead

/-- A job that is claimed, renewed and completed leaves the loop polling. -/
theorem poll_loop_survives_complete :
    ∃ s : State ℕ, exec standard.step Undisturbed (init 0)
      [.other (.call (.at 0) (.create (fun _ => true) 1 "TRAIN" [] 5 0)), .poll (.at 0),
        .heartbeat (.at (1 / 8640)), .finish .complete, .settle (.at (1 / 4320))] = some s ∧
      s.phase.exit = none := by
  have hrun : (exec standard.step Undisturbed (init 0 : State ℕ)
      [.other (.call (.at 0) (.create (fun _ => true) 1 "TRAIN" [] 5 0)), .poll (.at 0),
        .heartbeat (.at (1 / 8640)), .finish .complete, .settle (.at (1 / 4320))]).isSome := by
    decide +kernel
  obtain ⟨s, hs⟩ := Option.isSome_iff_exists.mp hrun
  exact ⟨s, hs, (poll_loop_survives (run_of_exec hs)).1⟩

end LocalExecutionWorker

end AutomlApi.Worker
