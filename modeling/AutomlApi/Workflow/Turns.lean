import AutomlApi.Workflow.Sections

/-! The sections of the worker and of the training thread: what they do to the run of
their job, and where they leave it. -/

namespace AutomlApi.Workflow

open Durable
open Jobs (Job Readings)

variable {lw : Leeway} {s u : World} {t : Tasks} {α β : Type} {d d' : RunData} {job : Job ℕ} {r : Readings}

/-! ### The job table -/

theorem onJobs_eq (r : Readings) (op : Jobs.Op ℕ) (s : World) : onJobs r op s =
    match (op.apply s.jobs r).2 with
    | .ok reply => (.ok reply, [.job r op])
    | .error fault => (.error (.job fault), []) := by
  unfold onJobs
  rw [read_bind]
  cases (op.apply s.jobs r).2 <;> rfl

theorem onJobs_eq_ok {op : Jobs.Op ℕ} {reply : Option (Job ℕ)} (h : (onJobs r op s).1 = .ok reply) :
    (op.apply s.jobs r).2 = .ok reply ∧ (onJobs r op).final s = s.apply (.job r op) := by
  rw [onJobs_eq] at h
  unfold final
  rw [onJobs_eq]
  cases hop : (op.apply s.jobs r).2 with
  | ok reply' =>
    rw [hop] at h
    cases h
    exact ⟨rfl, rfl⟩
  | error fault =>
    rw [hop] at h
    cases h

theorem requests_onJobs {op : Jobs.Op ℕ} (h : s.Permits lw op) : Requests lw (onJobs r op) s := by
  have hidle : Writes (World.Lawful .idle) (onJobs r op) s := writes_onJobs (h.mono fun _ => trivial)
  exact ⟨writes_onJobs h, keeps_of_writes hidle id id id⟩

/-- What may be counted on by a job that fails its run. -/
theorem endable (hs : Sound d) (hpaired : lw.torn ∨ d.Paired) (hlive : d.run.status ≠ .terminal) (h : d.Finished lw) :
    Endable lw d := ⟨⟨hs, hpaired, .inr hlive⟩, h⟩

/-- Only the last attempt of a job may fail its run. -/
theorem requests_retryJob (hs : s.Sound) (hpaired : ∀ runId d, s.runs.get runId = some d → lw.torn ∨ d.Paired)
    (hw : ¬ lw.works) (hg : s.Buriable lw job) (hd : s.runs.get job.runId = some d) (delaySeconds : ℚ) (error : String) :
    Requests lw (retryJob r job delaySeconds error) s := by
  have hsound := (hs.runs _ d hd).1
  cases hex : s.Exhausted job with
  | true =>
    refine requests_of_does hw (fun hnone => by rw [hnone] at hd; cases hd) (fun d' hd' => ?_) fun d' hd' => ?_
    · cases hd.symm.trans hd'
      exact does_retryJob rfl (fun hlive => endable hsound (hpaired _ d hd) hlive (hg hex d hd hlive)) _ _
    · cases hd.symm.trans hd'
      exact does_retryJob rfl (fun hlive => endable hsound (.inl trivial) hlive
        fun _ => ⟨.inl trivial, .inl trivial⟩) _ _
  | false =>
    refine requests_bind (requests_onJobs rfl) fun reply hreply => ?_
    cases reply with
    | none => exact requests_of_nil rfl
    | some updated =>
      dsimp only
      split
      · rename_i hdead
        obtain ⟨row, hrow, hle⟩ := Jobs.exhausted_of_retry (onJobs_eq_ok hreply).1 hdead
        rw [World.Exhausted, show s.jobs.lookup job.runId = some row from hrow] at hex
        simp [hle] at hex
      · exact requests_of_nil rfl

theorem requests_settle {w : Worker.LocalExecutionWorker} {outcome : Worker.Outcome} (hs : s.Sound)
    (hpaired : ∀ runId d, s.runs.get runId = some d → lw.torn ∨ d.Paired) (hw : ¬ lw.works)
    (hmoves : ∀ result, outcome = .checkpoint result → lw.moves) (hg : Retries outcome → s.Buriable lw job) (hd : s.runs.get job.runId = some d) (hgoes : GoesOn d outcome) :
    Requests lw (settle w r job outcome) s := by
  cases outcome with
  | complete => exact requests_bind (requests_onJobs rfl) fun _ _ => requests_of_nil rfl
  | checkpoint result =>
    refine requests_bind (requests_onJobs ⟨hmoves result rfl, fun ht d' hd' => ?_⟩) fun _ _ => requests_of_nil rfl
    cases hd.symm.trans hd'
    exact hgoes ht
  | raised error => exact requests_retryJob hs hpaired hw (hg rfl) hd _ _
  | fenceRaised => exact requests_of_nil rfl
  | cancelled => exact requests_retryJob hs hpaired hw (hg rfl) hd _ _

/-! ### The handler -/

/-- The training thread is alone with a worker that waits for it, or has ended. -/
theorem Tasks.Fits.thread_none (h : t.Fits s) (hended : t.worker ≠ .ended)
    (htraining : ∀ job, t.worker ≠ .handling job .training) : t.thread = none := by
  cases hthread : t.thread with
  | none => rfl
  | some thread =>
    rcases (h.thread thread hthread).1 with hw | hw
    · exact absurd hw hended
    · exact absurd hw (htraining _)

theorem fits_worker {worker : WorkerState} (h : worker.Fits u) (hthread : t.thread = none) :
    Tasks.Fits u { t with worker := worker } := ⟨h, fun _ hmem => by rw [hthread] at hmem; cases hmem⟩

theorem goesOn_fault (d : RunData) (f : Fault) : GoesOn d (Tasks.fault f) := by
  unfold Tasks.fault
  split <;> trivial

/-- A turn of the handler leaves it in a place that fits. -/
theorem proceeds_handle {place : Place} (hworks : lw.works) (hworker : t.worker = .handling job place)
    (hplace : place ≠ .training) (ht : t.Fits s) {m : Prog Turn}
    (hm : ∀ d, s.runs.get job.runId = some d → place.Holds job d → Does lw job.runId m d fun turn d' => turn.Fits d' ∧
      ∀ p, turn = .yields p → Grows d d' ∧ Busy d') : Proceeds lw t (t.handle job m) s := by
  have hfits := ht.worker
  rw [hworker] at hfits
  obtain ⟨hrow, d, hd, hold⟩ := hfits
  have hnone : t.thread = none := ht.thread_none (by simp [hworker]) fun job' h => by
    rw [hworker] at h
    cases h
    exact hplace rfl
  refine ends_bind (ends_attempt ?_)
  have hdoes := hm d hd hold s hd fun _ => hrow
  refine ⟨hdoes.1.mono fun _ _ hx => hx.1, ends_pure ?_⟩
  obtain ⟨d', hd', hrow', hpost⟩ := hdoes.2
  cases hresult : (m s).1 with
  | error f => exact fits_worker ⟨hrow' hworks, d', hd', goesOn_fault d' f⟩ hnone
  | ok turn =>
    obtain ⟨hturn, hyields⟩ := hpost turn hresult
    cases turn with
    | returns outcome => exact fits_worker ⟨hrow' hworks, d', hd', hturn⟩ hnone
    | yields place' =>
      obtain ⟨hg, hbusy⟩ := hyields place' rfl
      have hhas : (m.final s).Has job.runId (place'.Holds job) :=
        ⟨hrow' hworks, d', hd', fun h => hg.stages.subset (hold.step h), hturn, .inr hbusy⟩
      cases place' with
      | training =>
        refine ⟨hhas, fun thread hthread => ?_⟩
        cases hthread
        exact ⟨.inr rfl, hrow' hworks, d', hd', hbusy, hturn, trivial, trivial⟩
      | fresh | profiling | queueing | publishing => exact fits_worker hhas hnone

theorem proceeds_start (hworks : lw.works) (hworker : t.worker = .handling job .fresh) (hs : s.Sound) (ht : t.Fits s) :
    Proceeds lw t (t.handle job (startHandler job)) s := by
  refine proceeds_handle hworks hworker nofun ht fun d hd hold => ?_
  refine (does_startHandler rfl hold.step).mono ?_
  rintro turn d' ⟨rfl, hturn, hstarted⟩
  exact ⟨hturn, fun p hp => ⟨.refl _, busy_of_started (hs.runs _ _ hd).1 (hstarted p hp)⟩⟩

theorem Busy.working (hb : Busy d) (hs : Sound d) (hpaired : lw.torn ∨ d.Paired)
    (hlive : (lw.revives ∧ lw.appends) ∨ d.run.status ≠ .terminal) (hunpaused : d.Unpaused lw) : Working lw d where
  sound := hs
  paired := hpaired
  adds := hlive.imp_left And.right
  live := hlive.imp_left And.left
  unpaused := by
    by_cases ht : d.run.status = .terminal
    · exact .inr (by simp [ht])
    · exact hunpaused ht
  unsealed := hb.unsealed
  quiet := hb.quiet

/-- A section of the handler after which it only returns. -/
theorem returns_only {m : Prog Turn}
    (h : Does lw job.runId m d fun turn d' => turn.Fits d' ∧ ∃ outcome, turn = .returns outcome) :
    Does lw job.runId m d fun turn d' => turn.Fits d' ∧ ∀ p, turn = .yields p → Grows d d' ∧ Busy d' := by
  refine h.mono ?_
  rintro turn d' ⟨hfits, outcome, rfl⟩
  exact ⟨hfits, fun p hp => by cases hp⟩

theorem proceeds_enter {w : Worker.LocalExecutionWorker} {entry : Entry} (hworks : lw.works) (hquestions : lw.questions)
    (happroves : lw.approves) (hworker : t.worker = .handling job (.queueing entry)) (hs : s.Sound) (ht : t.Fits s)
    (hpaired : ∀ runId d, s.runs.get runId = some d → lw.torn ∨ d.Paired)
    (hg : ∀ d, s.runs.get job.runId = some d → entry.Grants lw d) :
    Proceeds lw t (t.handle job (enter w r job entry)) s := by
  refine proceeds_handle hworks hworker nofun ht fun d hd hold => ?_
  have hb : Busy d := hold.busy.resolve_left nofun
  have hsound := (hs.runs _ d hd).1
  have hpd := hpaired _ d hd
  have hfits : entry.Fits d := hold.fits
  have hgd := hg d hd
  cases entry with
  | profiled columns =>
    refine returns_only ((does_profiled (fun h => hb.working hsound hpd (.inr h) hgd.2.1) hworks hquestions hgd.1 hgd.2.2
      columns).mono ?_)
    rintro turn d' ⟨hturn, outcome, hreturns, -⟩
    exact ⟨hturn, outcome, hreturns⟩
  | resolve => exact returns_only (does_resolveTask (fun h => hb.working hsound hpd (.inr h) hgd) hworks hfits)
  | train =>
    refine (does_startTraining (fun h hp => hb.working hsound hpd (.inr h) fun _ => .inr hp) hworks hfits).mono ?_
    rintro turn d' ⟨hturn, hyields⟩
    exact ⟨hturn, fun p hp => ⟨(hyields p hp).2.1, hb.grows (hyields p hp).2.1⟩⟩
  | positiveClass classes =>
    exact returns_only (does_positiveClassRequired (hb.working hsound hpd hgd.2 hgd.1) hworks hquestions hfits classes)
  | engineError code => exact returns_only (does_engineFailed ⟨⟨hsound, hpd, hgd.1⟩, hgd.2⟩ code)
  | trained result =>
    refine (does_trained rfl (fun hlive hunpaused => ?_) ?_).mono ?_
    · have htrain := Or.resolve_left hfits hlive
      exact ⟨hb.working hsound hpd (.inr hlive) fun _ => .inr hunpaused, hworks, happroves, htrain, hgd hlive hunpaused⟩
    · intro hlive
      rw [mem_of_isPrefix hsound.stages]
      exact lt_trans (by decide) ((mem_of_isPrefix hsound.stages).mp (Or.resolve_left hfits hlive))
    · rintro turn d' ⟨hturn, hyields⟩
      refine ⟨hturn, fun p hp => ?_⟩
      obtain ⟨-, -, hgrows⟩ := hyields p hp
      exact ⟨hgrows, hb.grows hgrows⟩

theorem proceeds_resultStored {p : PendingResult} (hworks : lw.works) (happroves : lw.approves)
    (hworker : t.worker = .handling job (.publishing p)) (hs : s.Sound) (ht : t.Fits s)
    (hpaired : ∀ runId d, s.runs.get runId = some d → lw.torn ∨ d.Paired)
    (hg : ∀ d, s.runs.get job.runId = some d → d.run.status ≠ .terminal → d.run.status ≠ .paused → d.Concluded lw p.result)
    (stored : Bool) :
    Proceeds lw t (t.handle job do
      let pending ← resumeResult r job.runId p stored
      published pending) s := by
  refine proceeds_handle hworks hworker nofun ht fun d hd hold => ?_
  have hb : Busy d := hold.busy.resolve_left nofun
  obtain ⟨hfits, ⟨hlive, hunpaused⟩, htrain⟩ := hold.fits
  have hworking := hb.working (hs.runs _ d hd).1 (hpaired _ d hd) (.inr hlive) fun _ => .inr hunpaused
  have hpub : Publishable lw p.result d := ⟨hworking, hworks, happroves, htrain, hg d hd hlive hunpaused⟩
  refine does_bind ((does_resumeResult hpub hfits stored).mono ?_)
  intro pending d₁ hwaits
  refine (does_published hwaits hlive hunpaused htrain).mono ?_
  rintro turn d₂ ⟨rfl, hturn, hyields⟩
  refine ⟨hturn, fun place hplace => ?_⟩
  obtain ⟨-, -, hgrows⟩ := hyields place hplace
  exact ⟨hgrows, hb.grows hgrows⟩

/-! ### The training thread -/

/-- Work that neither asks nor comes to an approval leaves the run to its worker, even
where it raises. -/
theorem worked {m : Prog α} {Q : α → RunData → Prop} (hq : ¬ lw.questions) (ha : ¬ lw.approves)
    (h : Does lw job.runId m d Q) (hd : s.runs.get job.runId = some d) (hrow : (s.jobs.lookup job.runId).isSome) :
    Writes (World.Lawful lw) m s ∧ ((m.final s).jobs.lookup job.runId).isSome ∧
      ∃ d', (m.final s).runs.get job.runId = some d' ∧ d.stages <+: d'.stages ∧ (Busy d → Busy d') ∧
        ∀ a, (m s).1 = .ok a → Q a d' := by
  have hdoes := h s hd fun _ => hrow
  have hlawful : Writes (World.Lawful lw) m s := hdoes.1.mono fun _ _ hx => hx.1
  obtain ⟨d', hd', -, hpost⟩ := hdoes.2
  have hkept := hlawful.final (P := fun u => ∃ d', u.runs.get job.runId = some d' ∧ d.stages <+: d'.stages ∧
    (Busy d → Busy d')) (fun u x ⟨d₁, hd₁, hstages, hbusy⟩ hx => by
      rcases run_moves hx hd₁ with h | ⟨c, hc, h⟩
      · exact ⟨d₁, h, hstages, hbusy⟩
      · exact ⟨_, h, hstages.trans (stages_change d₁ c), fun hb => busy_apply (hbusy hb) hc hq ha⟩)
    ⟨d, hd, List.prefix_rfl, id⟩
  obtain ⟨d'', hd'', hstages, hbusy⟩ := hkept
  cases hd'.symm.trans hd''
  exact ⟨hlawful, hlawful.final (P := fun u => (u.jobs.lookup job.runId).isSome) (fun _ x h _ => row_apply x h) hrow, d',
    hd', hstages, hbusy, hpost⟩

/-- The tasks with the training thread in another place. -/
theorem fits_thread {thread thread' : Thread} (ht : t.Fits s) (hthread : t.thread = some thread)
    (hjob : thread'.job = thread.job) (h : u.Has thread.job.runId fun d =>
      (Trains thread.job.workflowStep → .profile ∈ d.stages) ∧ thread'.Fits d) :
    Tasks.Fits u { t with thread := some thread' } := by
  obtain ⟨hrow, d, hd, hstep, hfits⟩ := h
  have hwhere := (ht.thread thread hthread).1
  constructor
  · show t.worker.Fits u
    rcases hwhere with hw | hw
    · rw [hw]; trivial
    · rw [hw]
      exact ⟨hrow, d, hd, hstep, hfits.profile, .inr hfits.busy⟩
  · rintro thread'' ⟨⟩
    rw [hjob]
    exact ⟨hwhere, hrow, d, hd, hfits⟩

/-- What a publication leaves, where it returns. -/
def Progresses (stage : EngineStage) (call : StageCall) (d : RunData) : Option PendingSplit → Prop
  | none => call.reached.Fits d
  | some pending => Publication.Fits d stage (.storing call pending)

theorem fresh_of_follows {call : StageCall} {stage : EngineStage} (h : call.follows stage) (hcall : call.phase = .plan) :
    stage = .fresh := by
  cases call with
  | train => exact absurd hcall nofun
  | plan =>
    cases stage with
    | fresh => rfl
    | planned | evaluated | broken => cases h

/-- A section of the training thread leaves it in a place that fits. -/
theorem proceeds_publication {thread : Thread} {publication : Publication} {call : StageCall}
    {m : Prog (Option PendingSplit)} (hq : ¬ lw.questions) (ha : ¬ lw.approves)
    (hthread : t.thread = some thread) (ht : t.Fits s)
    (hm : ∀ d, s.runs.get thread.job.runId = some d → thread.Fits d →
      Does lw thread.job.runId m d fun pending d' => Progresses thread.stage call d' pending) :
    Proceeds lw t (t.publication { thread with publication := publication } call m) s := by
  obtain ⟨hwhere, hrow, d, hd, hfits⟩ := ht.thread thread hthread
  obtain ⟨hlawful, hrow', d', hd', hstages, hbusy, hpost⟩ := worked hq ha (hm d hd hfits) hd hrow
  have hprofile := hstages.subset hfits.profile
  have hthen : ∀ (stage : EngineStage) (p : Publication), stage.Fits d' → p.Fits d' stage →
      Tasks.Fits (m.final s) { t with thread := some ⟨thread.job, stage, p⟩ } := fun stage p hstage hp =>
    fits_thread ht hthread rfl ⟨hrow', d', hd', fun _ => hprofile, hbusy hfits.busy, hprofile, hstage, hp⟩
  refine ends_bind (ends_attempt ⟨hlawful, ?_⟩)
  cases hresult : (m s).1 with
  | error f => exact ends_pure (hthen (.broken f) .idle trivial trivial)
  | ok pending =>
    have hpub := hpost pending hresult
    cases pending with
    | none => exact ends_pure (hthen call.reached .idle hpub trivial)
    | some pending =>
      refine ends_pure (hthen thread.stage (.storing call pending) ?_ hpub)
      rw [fresh_of_follows hpub.1 hpub.2.1]
      trivial

theorem proceeds_publish {stage : EngineStage} {call : StageCall} (hworks : lw.works) (hq : ¬ lw.questions)
    (ha : ¬ lw.approves) (hthread : t.thread = some ⟨job, stage, .queueing call⟩) (hs : s.Sound) (ht : t.Fits s)
    (hpaired : ∀ runId d, s.runs.get runId = some d → lw.torn ∨ d.Paired)
    (hg : ∀ d, s.runs.get job.runId = some d → d.Unpaused lw) :
    Proceeds lw t (t.publication ⟨job, stage, .queueing call⟩ call (publishStage job.runId call)) s := by
  refine proceeds_publication hq ha hthread ht fun d hd hfits => ?_
  obtain ⟨hb, hprofile, hstage, hfollows⟩ := hfits
  have hsound := (hs.runs _ d hd).1
  have hplan : ∀ trialNumbers, call = .train trialNumbers → d.run.status ≠ .terminal → .plan ∈ d.stages := by
    rintro trialNumbers rfl hlive
    cases stage with
    | planned => exact Or.resolve_left hstage hlive
    | fresh | evaluated | broken => cases hfollows
  refine (does_publishStage call (fun h => hb.working hsound (hpaired _ d hd) (.inr h) (hg d hd)) hworks hprofile
    hplan).mono ?_
  rintro pending d' (⟨hterm, rfl, rfl⟩ | ⟨hlive, hgrows, hdone, hwaits⟩)
  · cases call with
    | plan | train => exact .inl hterm
  · cases pending with
    | none =>
      cases call with
      | plan | train => exact .inr (hdone rfl)
    | some pending =>
      obtain ⟨hcall, hpending⟩ := hwaits pending rfl
      have hlive' : False ∨ d'.run.status ≠ .terminal := hgrows.live nofun (.inr hlive)
      exact ⟨hfollows, hcall, ⟨⟨hpending.current.requiresApproval, .inr (hpending.current.now.resolve_left id)⟩,
        hpending.free⟩, fun _ => hlive'.resolve_left id⟩

theorem proceeds_splitStored {stage : EngineStage} {call : StageCall} {pending : PendingSplit} (hworks : lw.works)
    (hq : ¬ lw.questions) (ha : ¬ lw.approves) (hthread : t.thread = some ⟨job, stage, .storing call pending⟩)
    (hs : s.Sound) (ht : t.Fits s) (hpaired : ∀ runId d, s.runs.get runId = some d → lw.torn ∨ d.Paired) (stored : Bool)
    (hg : stored → ∀ d, s.runs.get job.runId = some d → d.Resumable lw) :
    Proceeds lw t (t.publication ⟨job, stage, .idle⟩ call do
      resumeStage job.runId pending stored
      pure none) s := by
  refine proceeds_publication hq ha hthread ht fun d hd hfits => ?_
  obtain ⟨hb, hprofile, hstage, hfollows, hcall, hpending, hlive⟩ := hfits
  have hsound := (hs.runs _ d hd).1
  cases stored with
  | false => exact does_bind (does_raise _)
  | true =>
    have hres := hg rfl d hd
    refine does_bind ((does_resumeStage (hb.working hsound (hpaired _ d hd) hres.live hres.unpaused) hpending hres.stale
      hworks hprofile true).mono ?_)
    rintro - d' ⟨hgrows, hplan⟩
    refine does_pure ?_
    cases call with
    | plan => exact .inr hplan
    | train => cases hcall

/-- The thread renews the lease of the job before it publishes. -/
theorem proceeds_callback {w : Worker.LocalExecutionWorker} {stage : EngineStage} {call : StageCall}
    (hthread : t.thread = some ⟨job, stage, .idle⟩) (hcall : call.follows stage) (ht : t.Fits s) :
    Proceeds lw t (do
      match ← (onJobs r (.renew job.claim w.leaseSeconds)).attempt with
      | .ok _ => pure { t with thread := some ⟨job, stage, .queueing call⟩ }
      | .error f => pure { t with thread := some ⟨job, .broken f, .idle⟩ }) s := by
  have hrenew : Requests lw (onJobs r (.renew job.claim w.leaseSeconds)) s := requests_onJobs rfl
  have hholds : s.Holds ((onJobs r (.renew job.claim w.leaseSeconds)).final s) := .of_eq (runs_onJobs ..)
  have hfits := ht.keeps hrenew.keeps fun _ => hholds
  obtain ⟨-, hrow, d, hd, hb, hprofile, hstage, -⟩ := hfits.thread _ hthread
  refine ends_bind (ends_attempt ⟨hrenew.lawful, ?_⟩)
  cases (onJobs r (.renew job.claim w.leaseSeconds) s).1 with
  | ok reply =>
    exact ends_pure (fits_thread ht hthread rfl ⟨hrow, d, hd, fun _ => hprofile, hb, hprofile, hstage, hcall⟩)
  | error f =>
    exact ends_pure (fits_thread ht hthread rfl ⟨hrow, d, hd, fun _ => hprofile, hb, hprofile, trivial, trivial⟩)

/-- The handler takes up what the training thread has come to. -/
theorem proceeds_threadEnds {stage : EngineStage} {ending : Ending} (hthread : t.thread = some ⟨job, stage, .idle⟩)
    (hending : ending.follows stage) (ht : t.Fits s) :
    Proceeds lw t (pure
      { t with
        thread := none
        worker := match t.worker with
          | .handling job' .training => Tasks.wake job' stage ending
          | other => other }) s := by
  obtain ⟨hwhere, hrow, d, hd, hb, hprofile, hstage, -⟩ := ht.thread _ hthread
  refine proceeds_pure ⟨?_, fun _ h => by cases h⟩
  rcases hwhere with hw | hw
  · simp only [hw]
    trivial
  · simp only [hw]
    have hhas : ∀ entry : Entry, entry.Fits d → WorkerState.Fits s (.handling job (.queueing entry)) :=
      fun entry hentry => ⟨hrow, d, hd, fun _ => hprofile, hentry, .inr hb⟩
    have hsettles : ∀ outcome : Worker.Outcome, GoesOn d outcome → WorkerState.Fits s (.settling job outcome) :=
      fun outcome h => ⟨hrow, d, hd, h⟩
    cases ending with
    | result result =>
      cases stage with
      | evaluated => exact hhas _ hstage
      | fresh | planned | broken => cases hending
    | positiveClass classes => exact hhas _ hprofile
    | engineError code => exact hhas _ hprofile
    | raises =>
      cases stage with
      | broken f => exact hsettles _ (goesOn_fault d f)
      | fresh | planned | evaluated => exact hsettles _ trivial

/-! ### The worker -/

section Worker

variable {w : Worker.LocalExecutionWorker}

/-- A job that is claimed is of a run that is there, at a step that the run has come to. -/
theorem proceeds_claim (hworker : t.worker = .idle) (hs : s.Sound) (ht : t.Fits s) :
    Proceeds lw t (do
      match ← (onJobs r (.claim w.workerId w.leaseSeconds)).attempt with
      | .ok (some job) => pure { t with worker := .handling job .fresh }
      | .ok none => pure t
      | .error _ => pure { t with worker := .ended }) s := by
  have hclaim : Requests lw (onJobs r (.claim w.workerId w.leaseSeconds)) s := requests_onJobs rfl
  have hnone : t.thread = none := ht.thread_none (by simp [hworker]) (by simp [hworker])
  refine ends_bind (ends_attempt ⟨hclaim.lawful, ?_⟩)
  cases hreply : (onJobs r (.claim w.workerId w.leaseSeconds) s).1 with
  | error f => exact ends_pure (fits_worker trivial hnone)
  | ok reply =>
    cases reply with
    | none =>
      refine ends_pure (ht.keeps hclaim.keeps fun _ => .of_eq (runs_onJobs ..))
    | some job =>
      obtain ⟨hok, hfinal⟩ := onJobs_eq_ok hreply
      have hrow := Jobs.lookup_of_claimed hok
      have hsound : (s.apply (.job r (.claim w.workerId w.leaseSeconds))).Sound :=
        world_sound_apply hs (show s.Lawful lw _ from rfl)
      obtain ⟨-, d, hd, hstep⟩ := hsound.rows job.runId job hrow
      refine ends_pure (fits_worker ⟨?_, d, ?_, hstep, trivial, .inl rfl⟩ hnone)
      · rw [hfinal, show (s.apply (.job r (.claim w.workerId w.leaseSeconds))).jobs.lookup job.runId = some job from hrow]
        rfl
      · rw [hfinal]
        exact hd

/-- The profile has been read, or could not be. -/
theorem proceeds_profileRead (hworker : t.worker = .handling job .profiling) (ht : t.Fits s)
    (profile : Except String (List String)) :
    Proceeds lw t (pure { t with worker := match profile with
      | .ok columns => .handling job (.queueing (.profiled columns))
      | .error message => .settling job (.raised message) }) s := by
  have hnone : t.thread = none := ht.thread_none (by simp [hworker]) (by simp [hworker])
  have hfits := ht.worker
  rw [hworker] at hfits
  obtain ⟨hrow, d, hd, hold⟩ := hfits
  refine proceeds_pure (fits_worker ?_ hnone)
  cases profile with
  | ok columns => exact ⟨hrow, d, hd, hold.step, trivial, .inr (hold.busy.resolve_left nofun)⟩
  | error message => exact ⟨hrow, d, hd, trivial⟩

theorem proceeds_settle {outcome : Worker.Outcome} (hw : ¬ lw.works) (hmoves : lw.moves) (hworker : t.worker = .settling job outcome)
    (hs : s.Sound) (ht : t.Fits s) (hpaired : ∀ runId d, s.runs.get runId = some d → lw.torn ∨ d.Paired)
    (hg : Retries outcome → s.Buriable lw job) :
    Proceeds lw t (do
      match ← (settle w r job outcome).attempt with
      | .ok () => pure { t with worker := .idle }
      | .error _ => pure { t with worker := .ended }) s := by
  have hnone : t.thread = none := ht.thread_none (by simp [hworker]) (by simp [hworker])
  have hfits := ht.worker
  rw [hworker] at hfits
  obtain ⟨-, d, hd, hgoes⟩ := hfits
  refine ends_bind (ends_attempt ⟨(requests_settle hs hpaired hw (fun _ _ => hmoves) hg hd hgoes).lawful, ?_⟩)
  cases (settle w r job outcome s).1 with
  | ok u => exact ends_pure (fits_worker trivial hnone)
  | error f => exact ends_pure (fits_worker trivial hnone)

/-- A record that fails a run: among outputs it only adds failure reports. -/
def Write.fails : Write → Bool
  | .on _ (.output o) _ => o.type = .failureReport
  | .run .. => false
  | _ => true

theorem fails_emit (runId : ℕ) (run : Run) (payload : Payload) : Always Write.fails (emit runId run payload) :=
  always_bind (always_newId rfl) fun _ => always_bind (always_bind (always_change rfl) fun _ => always_pure _) fun _ =>
    always_bind always_find fun _ => always_bind (always_check _) fun _ => always_bind (always_change rfl) fun _ =>
      always_pure _

theorem fails_insert {ι : Type} {runId : ℕ} {resource : String} {items : RunData → List ι} {key : ι → ℕ}
    {wrap : ι → Change} {item : ι} (h : (Write.on runId (wrap item) false).fails) :
    Always Write.fails (insert runId resource items key wrap item) := by
  refine always_bind always_find fun d => ?_
  split
  · exact always_raise _
  · exact always_bind (always_change h) fun _ => always_pure _

theorem fails_failRun (runId : ℕ) (run : Run) (code : String) : Always Write.fails (failRun runId run code) := by
  refine always_bind (always_bind (always_bind always_find fun _ => always_pure _) fun existing => ?_) fun _ => ?_
  · cases existing with
    | some o => exact always_pure _
    | none =>
      refine always_bind (always_newId rfl) fun _ => always_bind (fails_insert rfl) fun _ => ?_
      refine always_bind (fails_emit runId run _) fun _ => always_bind ?_ fun _ => always_pure _
      exact always_bind always_find fun _ => always_bind (always_check _) fun _ => always_bind (always_change rfl)
        fun _ => always_pure _
  · refine always_bind (always_bind always_find fun d => always_bind (always_check _) fun _ => ?_) fun _ => always_pure _
    split
    · exact always_raise _
    · exact always_bind (always_bind always_find fun _ => always_read_bind fun _ => always_bind (always_write rfl)
        fun _ => always_pure _) fun _ => always_pure _

/-- What a program that only fails a run leaves of its outputs. -/
structure Fails (d d' : RunData) : Prop where
  requiresApproval : d'.run.requiresApproval = d.run.requiresApproval
  outputs : ∀ o ∈ d'.outputs, o ∈ d.outputs ∨ o.type = .failureReport

theorem requiresApproval_apply (d : RunData) (c : Change) :
    (d.apply c).run.requiresApproval = d.run.requiresApproval := by
  have hfold : ∀ (payloads : List Payload) (n : ℕ) (d : RunData),
      (payloads.foldl (fun d payload => d.append payload n) d).run.requiresApproval = d.run.requiresApproval := by
    intro payloads n
    induction payloads with
    | nil => exact fun _ => rfl
    | cons payload rest ih => exact fun d => ih (d.append payload n)
  cases c with
  | finalized result p events => exact hfold events _ { d with run := d.run.update p true, result := some result }
  | _ => rfl

theorem fails_final {m : Prog α} (hm : Always Write.fails m) {runId : ℕ} (hd : s.runs.get runId = some d) :
    ∃ d', (m.final s).runs.get runId = some d' ∧ Fails d d' := by
  refine (hm s).final (P := fun u => ∃ d', u.runs.get runId = some d' ∧ Fails d d') ?_ ⟨d, hd, rfl, fun o ho => .inl ho⟩
  rintro u x ⟨d₁, hd₁, hfails⟩ hx
  cases x with
  | run => cases hx
  | on id c drawsId =>
    by_cases hid : runId = id
    · subst hid
      have hget : (u.apply (.on runId c drawsId)).runs.get runId = some (d₁.apply c) := by
        simp only [World.apply, get_modifyKey, if_pos, hd₁, Option.map_some]
      refine ⟨_, hget, (requiresApproval_apply d₁ c).trans hfails.requiresApproval, fun o ho => ?_⟩
      rcases outputs_apply ho with h | rfl
      · exact hfails.outputs o h
      · exact .inr (of_decide_eq_true hx)
    · have hget : (u.apply (.on id c drawsId)).runs.get runId = u.runs.get runId := by
        simp only [World.apply, get_modifyKey, if_neg hid]
      exact ⟨d₁, hget.trans hd₁, hfails⟩
  | _ => exact ⟨d₁, hd₁, hfails⟩

theorem final_bind {m : Prog α} {k : α → Prog β} : (m >>= k).final s = match (m s).1 with
    | .ok a => (k a).final (m.final s)
    | .error _ => m.final s := by
  unfold final
  rw [bind_eq]
  cases m s with
  | mk result l =>
    cases result with
    | ok a => exact replay_append s l _
    | error e => rfl

/-- A run that a job has failed has a result. -/
theorem closed_failRun (hdrawn : s.Drawn) {runId : ℕ} (hd : s.runs.get runId = some d) (code : String) :
    ∃ d', ((failRun runId d.run code).final s).runs.get runId = some d' ∧ d'.result.isSome := by
  have hstands : Stands s runId d.standing s.jobs := ⟨by rw [World.standing, hd]; rfl, rfl, hdrawn⟩
  have hsays := says_failRun hstands (agrees_standing d) code
  have hview := view_replay s ((failRun runId d.run code) s).2
  have hstanding : ∃ c, ((failRun runId d.run code).final s).standing runId = some c ∧ c.closed := by
    rcases hsays with ⟨hclosed, -, hl⟩ | ⟨-, -, result, events, hl⟩
    · rw [hl, replay_nil] at hview
      exact ⟨_, (congrFun (congrArg View.standing hview) runId).trans hstands.get, hclosed⟩
    · rw [hl] at hview
      refine ⟨d.standing.apply (.finalized result failed events),
        (congrFun (congrArg View.standing hview) runId).trans ?_, rfl⟩
      show Function.update s.view.standing runId _ runId = _
      rw [Function.update_self, show s.view.standing runId = _ from hstands.get]
      rfl
  obtain ⟨c, hc, hclosed⟩ := hstanding
  obtain ⟨d', hd', rfl⟩ := Option.map_eq_some_iff.mp hc
  exact ⟨d', hd', hclosed⟩

/-- A retry leaves its run alone, unless it fails it. -/
theorem retryJob_data (hdrawn : s.Drawn) (hd : s.runs.get job.runId = some d) (delaySeconds : ℚ) (error : String) :
    ∃ d', ((retryJob r job delaySeconds error).final s).runs.get job.runId = some d' ∧
      (d' = d ∨ (d'.result.isSome ∧ Fails d d')) := by
  have hsame : ((onJobs r (.retry job.claim delaySeconds error)).final s).runs.get job.runId = some d := by
    rw [runs_onJobs, hd]
  unfold retryJob
  rw [final_bind]
  cases hreply : (onJobs r (.retry job.claim delaySeconds error) s).1 with
  | error f => exact ⟨d, hsame, .inl rfl⟩
  | ok reply =>
    cases reply with
    | none => exact ⟨d, hsame, .inl rfl⟩
    | some updated =>
      dsimp only
      split
      · obtain ⟨-, hfinal⟩ := onJobs_eq_ok hreply
        rw [hfinal]
        have hd₁ : (s.apply (.job r (.retry job.claim delaySeconds error))).runs.get job.runId = some d := hd
        have hdrawn₁ : (s.apply (.job r (.retry job.claim delaySeconds error))).Drawn := hdrawn
        unfold handleDeadJob final
        rw [read_bind, hd₁]
        dsimp only
        split
        · exact ⟨d, hd, .inl rfl⟩
        · obtain ⟨d', hd', hclosed⟩ := closed_failRun hdrawn₁ hd₁ "WORKER_RETRIES_EXHAUSTED"
          obtain ⟨d'', hd'', hfails⟩ := fails_final (fails_failRun job.runId d.run "WORKER_RETRIES_EXHAUSTED") hd₁
          cases hd'.symm.trans hd''
          exact ⟨d', hd', .inr ⟨hclosed, hfails⟩⟩
      · exact ⟨d, hsame, .inl rfl⟩

/-- A worker that is stopped gives its job back, and may fail its run under the feet of the
training thread. -/
theorem proceeds_cancelled (hw : ¬ lw.works) (hhas : s.Has job.runId fun _ => True)
    (hthread : ∀ thread ∈ t.thread, thread.job = job) (hs : s.Sound) (hdrawn : s.Drawn) (ht : t.Fits s)
    (hpaired : ∀ runId d, s.runs.get runId = some d → lw.torn ∨ d.Paired) (hg : s.Buriable lw job) :
    Proceeds lw t (t.cancelled r job) s := by
  obtain ⟨-, d, hd, -⟩ := hhas
  have hretry := requests_retryJob (r := r) hs hpaired hw hg hd 0 "CancelledError: worker stopped"
  refine ends_bind (ends_attempt ⟨hretry.lawful, ends_pure ⟨trivial, fun thread hmem => ⟨.inl rfl, ?_⟩⟩⟩)
  have hjob := hthread thread hmem
  obtain ⟨-, hfits⟩ := ht.thread thread hmem
  refine hfits.keeps hretry.keeps fun d₁ d₂ hd₁ hd₂ hkeeps hp => hp.keeps hkeeps ?_
  rw [hjob, hd] at hd₁
  cases hd₁
  obtain ⟨d', hd', hdata⟩ := retryJob_data (r := r) hdrawn hd 0 "CancelledError: worker stopped"
  rw [hjob, hd'] at hd₂
  cases hd₂
  have hpub := hp.publication
  cases hpublication : thread.publication with
  | idle => trivial
  | queueing call =>
    rw [hpublication] at hpub
    exact hpub
  | storing call pending =>
    rw [hpublication] at hpub
    rcases hdata with rfl | ⟨hclosed, hfails⟩
    · exact hpub
    · obtain ⟨hfollows, hcall, hpending, -⟩ := hpub
      refine ⟨hfollows, hcall, ⟨⟨hpending.current.requiresApproval.trans hfails.requiresApproval.symm, .inl hclosed⟩,
        fun o ho => ?_⟩, fun hopen => by rw [hopen] at hclosed; cases hclosed⟩
      rcases hfails.outputs o ho with h | h
      · exact hpending.free o h
      · simp [h]

/-- A heartbeat that fails ends the worker: the row has its shape, so that it fails at the fence. -/
theorem proceeds_heartbeat (hhas : s.Has job.runId fun _ => True) (hs : s.Sound) (ht : t.Fits s) :
    Proceeds lw t (do
      match ← (onJobs r (.renew job.claim w.leaseSeconds)).attempt with
      | .ok _ => pure t
      | .error f => pure { t with worker := if f.isFence then .ended else .settling job (.raised f.name) }) s := by
  have hrenew : Requests lw (onJobs r (.renew job.claim w.leaseSeconds)) s := requests_onJobs rfl
  have hfits := ht.keeps hrenew.keeps fun _ => .of_eq (runs_onJobs ..)
  refine ends_bind (ends_attempt ⟨hrenew.lawful, ?_⟩)
  cases hreply : (onJobs r (.renew job.claim w.leaseSeconds) s).1 with
  | ok reply => exact ends_pure hfits
  | error f =>
    have hfence : f.isFence := by
      rw [onJobs_eq] at hreply
      cases hop : ((Jobs.Op.renew job.claim w.leaseSeconds).apply s.jobs r).2 with
      | ok reply => rw [hop] at hreply; cases hreply
      | error fault =>
        rw [hop] at hreply
        cases hreply
        obtain ⟨row, hrow⟩ := Option.isSome_iff_exists.mp hhas.1
        exact Jobs.isFence_of_renew (by simp [Jobs.Op.wellFormed, PyFloat.isFinite, PyFloat.le, w.leaseSeconds_pos]) hrow (hs.rows _ row hrow).1 hop
    simp only [hfence, if_true]
    exact ends_pure ⟨trivial, fun thread hmem => ⟨.inl rfl, (hfits.thread thread hmem).2⟩⟩

end Worker

end AutomlApi.Workflow
