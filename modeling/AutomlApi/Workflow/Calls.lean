import AutomlApi.Workflow.Readiness

/-! What the steps call on the job table. A request creates or wakes jobs, the worker claims
them, and all other calls present the claim of the job that the step works under. -/

namespace AutomlApi.Workflow

open Durable
open Jobs (Job Readings Table)

variable {w : Worker.LocalExecutionWorker} {s : System} {u : World} {t : Tasks} {runId : ℕ} {d : RunData} {α β : Type}
  {ok : Jobs.Op ℕ → Bool}

/-! ### Calls of the programs -/

/-- A record that only makes such calls. -/
def Write.calls (ok : Jobs.Op ℕ → Bool) : Write → Bool
  | .job _ op => ok op
  | _ => true

/-- A program that only makes such calls. -/
abbrev Calls (ok : Jobs.Op ℕ → Bool) (m : Prog α) : Prop := Always (Write.calls ok) m

theorem calls_of_spoken {m : Prog α} {Q : Except Fault α → List Write → Prop} (h : Says Write.loud m u Q)
    (hQ : ∀ r l, Q r l → ∀ x ∈ l, x.calls ok) : Writes (fun _ x => x.calls ok) m u := by
  refine along_iff.mpr fun x hx => ?_
  cases hloud : x.loud with
  | true => exact hQ _ _ h x (List.mem_filter.mpr ⟨hx, hloud⟩)
  | false =>
    cases x with
    | job r op => cases hloud
    | _ => rfl

theorem calls_of_quiet {m : Prog α} (h : Minds ⟨runId, false, true⟩ m) (u : World) : Writes (fun _ x => x.calls ok) m u :=
  calls_of_spoken (Q := fun _ l => l = []) (filter_of_quiet h rfl u) fun _ _ hl x hx => by
    rw [hl] at hx
    cases hx

theorem calls_aside {m : Prog α} (h : Aside m) : Calls ok m := fun u => (h u).mono fun _ x hx => by
  cases x with
  | job => cases hx
  | _ => rfl

section Requests

variable {run : Run} {tenantId : String}

theorem calls_updateRun (p : RunPatch) (expected : Option ℕ) (bump : Bool) : Calls ok (updateRun runId p expected bump) :=
  always_bind always_find fun _ => always_bind (always_check _) fun _ => always_bind (always_change rfl) fun _ => always_pure _

theorem calls_emit (run : Run) (payload : Payload) : Calls ok (emit runId run payload) :=
  always_bind (always_newId rfl) fun _ =>
    always_bind (always_bind (always_change rfl) fun _ => always_pure _) fun _ => calls_updateRun _ _ _

theorem calls_createCommand (type : CommandType) (status : CommandStatus) : Calls ok (createCommand runId type status) :=
  always_bind (always_changeWithId fun _ => rfl) fun _ => always_pure _

theorem calls_finalizeRunWithResult (resultManifestId : Option ℕ) (outcome : Outcome) (code : Option String) (p : RunPatch)
    (events : List Payload) (expected : Option ℕ) :
    Calls ok (finalizeRunWithResult runId resultManifestId outcome code p events expected) := by
  refine always_bind always_find fun d => always_bind (always_check _) fun _ => ?_
  split
  · exact always_raise _
  · exact always_bind (always_changeWithId fun _ => rfl) fun _ => always_pure _

theorem calls_ownedRun (tenantId : String) : Calls ok (ownedRun tenantId runId) := always_read_bind fun _ => always_check _

theorem calls_answer (hok : ok (.wake runId)) (r : Readings) (tenantId : String) (request : AnswerRequest) :
    Calls ok (answer r tenantId runId request) := by
  refine always_bind (calls_ownedRun tenantId) fun d => ?_
  cases d.packets.find? (·.waitSetId = request.waitSetId) with
  | none => exact always_raise _
  | some packet =>
    refine always_bind (always_check _) fun _ => always_bind (always_check _) fun _ => always_bind (always_check _) fun _ => ?_
    refine always_bind (always_check _) fun _ => always_bind (always_check _) fun _ => always_bind (always_check _) fun _ => ?_
    refine always_bind (calls_createCommand _ _) fun _ => always_bind (always_change rfl) fun _ => ?_
    exact always_bind (calls_updateRun _ _ _) fun _ => always_bind (always_onJobs hok) fun _ => always_pure _

theorem calls_supersedePackets (packets : List DecisionPacket) : Calls ok (supersedePackets runId packets) := by
  induction packets with
  | nil => exact always_pure _
  | cons p rest ih =>
    unfold supersedePackets
    split
    · exact always_bind (always_change rfl) fun _ => ih
    · exact ih

theorem calls_act (c : Control) : Calls ok (c.act runId d) := by
  have hswitch : ∀ (status : RunStatus) (actions : List CommandType), Calls ok (switchStatus runId d.run status actions) :=
    fun _ _ => always_bind (calls_updateRun _ _ _) fun _ => calls_emit _ _
  cases c with
  | pause => exact hswitch _ _
  | resume =>
    simp only [Control.act]
    split
    · exact hswitch _ _
    · exact hswitch _ _
  | cancel =>
    exact always_bind (calls_supersedePackets _) fun _ => always_bind (always_newId rfl) fun _ =>
      calls_finalizeRunWithResult _ _ _ _ _ _

theorem calls_control (hok : ok (.wake runId)) (r : Readings) (tenantId : String) (c : Control) (revision : Option ℕ) :
    Calls ok (control r tenantId runId c revision) := by
  have hwake : Calls ok (wakeUnlessTerminal r runId) := by
    refine always_read_bind fun v => ?_
    cases v.jobs.lookup runId with
    | none => exact always_pure _
    | some job =>
      dsimp only
      split
      · exact always_pure _
      · exact always_bind (always_onJobs hok) fun _ => always_pure _
  refine always_bind (calls_ownedRun tenantId) fun d => always_bind (always_check _) fun _ => ?_
  refine always_bind (calls_createCommand _ _) fun _ => always_bind (calls_act c) fun _ => always_bind (always_change rfl) fun _ => ?_
  split
  · exact always_pure _
  · exact hwake

theorem calls_decide (now : Jobs.Time) (tenantId : String) (approvalId evidenceVersion : ℕ) (decision : Decision)
    (human : Except Problem Unit) : Calls ok (decide now tenantId runId approvalId evidenceVersion decision human) := by
  have hregister : ∀ (run : Run) (models : List ℕ), Calls ok (registerCandidate runId run models decision) := by
    intro run models
    cases decision with
    | requestChanges | reject => exact always_pure _
    | approve =>
      simp only [registerCandidate]
      cases run.pendingModelCandidate with
      | none => exact always_raise _
      | some modelId =>
        dsimp only
        split
        · exact always_pure _
        · refine always_bind (always_bind always_find fun d => ?_) fun _ => always_pure _
          split
          · exact always_raise _
          · exact always_bind (always_change rfl) fun _ => always_pure _
  refine always_bind (calls_ownedRun tenantId) fun d => ?_
  cases d.approvals.find? (·.approvalId = approvalId) with
  | none => exact always_raise _
  | some approval =>
    refine always_bind (always_check _) fun _ => always_bind (always_check _) fun _ => always_bind (always_check _) fun _ => ?_
    split
    · exact always_bind (always_change rfl) fun _ => always_raise _
    · refine always_bind (always_change rfl) fun _ => always_bind (calls_createCommand _ _) fun _ => ?_
      refine always_bind (hregister _ _) fun _ => always_bind (calls_finalizeRunWithResult _ _ _ _ _ _) fun _ => ?_
      exact always_bind (always_change rfl) fun _ => always_pure _

theorem calls_createExecutionJob (hok : ∀ known runId workflowStep fields maxAttempts controlEpoch,
      ok (.create known runId workflowStep fields maxAttempts controlEpoch)) (r : Readings) (workflowStep : String)
    (fields : Store.Fields) : Calls ok (createExecutionJob r runId workflowStep fields) :=
  always_read_bind fun _ => always_bind (always_onJobs (hok ..)) fun _ => always_pure _

theorem calls_createRun (hok : ∀ known runId workflowStep fields maxAttempts controlEpoch,
      ok (.create known runId workflowStep fields maxAttempts controlEpoch)) (r : Readings) (tenantId : String) (request : RunRequest) (admitted : Except Problem Unit) :
    Calls ok (createRun r tenantId request admitted) :=
  always_read_bind fun _ => always_bind (always_check _) fun _ => always_bind (always_check _) fun _ =>
    always_bind (always_check _) fun _ => always_bind (always_newId rfl) fun _ => always_bind (always_write rfl) fun _ =>
      calls_createExecutionJob hok _ _ _

theorem calls_repairJobs (hok : ∀ known runId workflowStep fields maxAttempts controlEpoch,
      ok (.create known runId workflowStep fields maxAttempts controlEpoch)) (r : Readings) (runs : List (ℕ × RunData)) : Calls ok (repairJobs r runs) := by
  induction runs with
  | nil => exact always_pure _
  | cons p rest ih =>
    refine always_read_bind fun v => ?_
    split
    · exact always_bind (always_pure ()) fun _ => ih
    · exact always_bind (calls_createExecutionJob hok _ _ _) fun _ => ih

theorem calls_continueDeletion (r : Readings) (done : Bool) (task : DeletionTask)
    (hok : ∀ id rest, task.chores = .cancel id :: rest → ok (.wake id)) : Calls ok (continueDeletion r done task) := by
  by_cases hcancel : ∃ id rest, task.chores = .cancel id :: rest
  · obtain ⟨id, rest, hchores⟩ := hcancel
    unfold continueDeletion
    rw [hchores]
    have hperform : Calls ok (control r task.tenantId id .cancel none) :=
      calls_control (hok id rest hchores) r task.tenantId .cancel none
    refine always_bind (m := (control r task.tenantId id .cancel none).attempt) hperform fun result => ?_
    cases result with
    | ok _ => exact always_pure _
    | error e => exact always_bind (always_write rfl) fun _ => always_pure _
  · exact calls_aside (aside_continueDeletion r done task fun id rest h => hcancel ⟨id, rest, h⟩)

end Requests

section Handlers

variable {r : Readings} {c : Standing} {jobs : Table ℕ} {job : Job ℕ}

theorem calls_transitions (phase : Phase) (progress : ℕ) : ∀ x ∈ transitions runId c phase progress, x.calls ok := by
  intro x hx
  unfold transitions at hx
  split at hx
  · cases hx
  · rw [List.mem_singleton.mp hx]
    rfl

theorem calls_orNone {l l' : List Write} {result : Except Fault α} (hl : ∀ x ∈ l, x.calls ok) (h : OrNone l result l') :
    ∀ x ∈ l', x.calls ok := by
  rcases h with rfl | rfl
  · exact fun x hx => absurd hx List.not_mem_nil
  · exact hl

theorem calls_publishes {result : Except Fault (Option PendingResult)} {l : List Write} (h : Publishes runId c result l) :
    ∀ x ∈ l, x.calls ok := by
  obtain ⟨l', hconcludes, hl⟩ := h
  have hl' : ∀ x ∈ l', x.calls ok := by
    intro x hx
    cases hconcludes with
    | waits | fails => cases hx
    | opens | asks | succeeds =>
      rw [List.mem_singleton.mp hx]
      rfl
    | opensAndAsks =>
      rcases List.mem_cons.mp hx with rfl | hx
      · rfl
      · rw [List.mem_singleton.mp hx]
        rfl
  rcases hl with rfl | rfl
  · exact hl'
  · exact fun x hx => (List.mem_append.mp hx).elim (calls_transitions _ _ x) (hl' x)

theorem calls_enters {entry : Entry} {result : Except Fault Turn} {l : List Write} (h : Enters runId c entry result l) :
    ∀ x ∈ l, x.calls ok := by
  cases h with
  | ended | paused | failsClosed => exact fun x hx => absurd hx List.not_mem_nil
  | _ =>
    intro x hx
    simp only [asks, List.mem_cons, List.not_mem_nil, or_false] at hx
    rcases hx with rfl | rfl | rfl <;> rfl

theorem calls_enter (hd : u.runs.get job.runId = some d) (hdrawn : u.Drawn) (entry : Entry)
    (hok : ∀ result, entry = .trained result → ok (.renew job.claim w.leaseSeconds)) :
    Writes (fun _ x => x.calls ok) (enter w r job entry) u := by
  have hstands : Stands u job.runId d.standing u.jobs := ⟨by rw [World.standing, hd]; rfl, rfl, hdrawn⟩
  have henters : ∀ {entry : Entry} {m : Prog Turn}, Says Write.loud m u (Enters job.runId d.standing entry) →
      Writes (fun _ x => x.calls ok) m u := fun h => calls_of_spoken h fun _ _ => calls_enters
  cases entry with
  | profiled columns => exact henters (says_profiled hstands columns)
  | resolve => exact henters (says_resolveTask hstands)
  | train => exact henters (says_startTraining hstands)
  | positiveClass classes => exact henters (says_positiveClassRequired hstands classes)
  | engineError code => exact henters (says_engineFailed hstands code)
  | trained result =>
    let renew : Prog (Option (Job ℕ)) := onJobs r (.renew job.claim w.leaseSeconds)
    have hcalls : Calls ok renew := always_onJobs (hok result rfl)
    have happart : Always Write.apart renew := always_onJobs rfl
    refine writes_bind (hcalls u) fun _ _ => writes_read_bind ?_
    have hd' : (renew.final u).runs.get job.runId = some d := by
      rw [runs_onJobs]
      exact hd
    have hdrawn' : (renew.final u).Drawn :=
      (told_of_apart happart u).drawn.final (fun _ _ hv hx => drawn_apply hv hx) hdrawn
    have hstands' : Stands (renew.final u) job.runId d.standing (renew.final u).jobs :=
      ⟨by rw [World.standing, hd']; rfl, rfl, hdrawn'⟩
    rw [hd']
    dsimp only
    split
    · exact writes_pure _
    split
    · have hminds : Minds ⟨job.runId, false, true⟩ (checkpoint "TRAIN" true []) := minds_checkpoint _ _ _
      exact calls_of_quiet hminds _
    · refine calls_of_spoken (says_published (says_publishResult hstands' d.run)) ?_
      rintro _ l ⟨result', -, hpublishes⟩
      exact calls_publishes hpublishes

theorem calls_failRun (run : Run) (code : String) : Calls ok (failRun runId run code) := by
  have hinsert : ∀ o, Calls ok (createOutput runId o) := fun o => always_bind always_find fun d => by
    split
    · exact always_raise _
    · exact always_bind (always_change rfl) fun _ => always_pure _
  refine always_bind (always_bind (always_bind always_find fun _ => always_pure _) fun existing => ?_) fun _ =>
    always_bind (calls_finalizeRunWithResult _ _ _ _ _ _) fun _ => always_pure _
  cases existing with
  | some o => exact always_pure _
  | none =>
    exact always_bind (always_newId rfl) fun _ => always_bind (hinsert _) fun _ => always_bind (calls_emit _ _) fun _ =>
      always_bind (calls_updateRun _ _ _) fun _ => always_pure _

theorem calls_retryJob (hok : ∀ delaySeconds error, ok (.retry job.claim delaySeconds error)) (delaySeconds : ℚ)
    (error : String) : Calls ok (retryJob r job delaySeconds error) := by
  refine always_bind (always_onJobs (hok ..)) fun reply => ?_
  cases reply with
  | none => exact always_pure _
  | some updated =>
    dsimp only
    split
    · refine always_read_bind fun v => ?_
      cases v.runs.get job.runId with
      | none => exact always_pure _
      | some d =>
        dsimp only
        split
        · exact always_pure _
        · exact calls_failRun _ _
    · exact always_pure _

theorem calls_settle (outcome : Worker.Outcome) (hcomplete : ok (.complete job.claim))
    (hcheckpoint : ∀ nextStep fields status, ok (.checkpoint job.claim nextStep fields status))
    (hretry : Retries outcome → ∀ delaySeconds error, ok (.retry job.claim delaySeconds error)) :
    Calls ok (settle w r job outcome) := by
  cases outcome with
  | complete => exact always_bind (always_onJobs hcomplete) fun _ => always_pure _
  | checkpoint => exact always_bind (always_onJobs (hcheckpoint ..)) fun _ => always_pure _
  | raised | cancelled => exact calls_retryJob (hretry rfl) _ _
  | fenceRaised => exact always_raise _

end Handlers

/-! ### Sections -/

/-- The job that a step works under: that of the worker, or of the training thread. -/
def Tasks.acting (t : Tasks) : Action → Option (Job ℕ)
  | .start | .profileRead _ | .enter _ | .resultStored .. | .settle _ | .heartbeat _ | .stop _ =>
    match t.worker with
    | .handling job _ | .settling job _ => some job
    | _ => none
  | .callback .. | .publish | .splitStored _ | .threadEnds _ => t.thread.map Thread.job
  | _ => none

/-- The job that a step would retry. -/
def System.retrying (s : System) : Action → Option (Job ℕ)
  | .settle _ =>
    match s.tasks.worker with
    | .settling job outcome => if Retries outcome then some job else none
    | _ => none
  | .stop _ =>
    match s.tasks.worker with
    | .handling job _ | .settling job _ => some job
    | _ => none
  | _ => none

/-- The steps that may create jobs. -/
def Action.enrols : Action → Bool
  | .createRun .. | .boot _ => true
  | _ => false

/-- The run whose job a step may wake. -/
def Tasks.wakes (t : Tasks) : Action → Option ℕ
  | .answer _ _ runId _ | .control _ _ runId _ _ => some runId
  | .continueDeletion index _ _ =>
    match t.deletions[index]? with
    | some ⟨_, _, .cancel runId :: _⟩ => some runId
    | _ => none
  | _ => none

/-- The steps that may claim a job. -/
def Action.claims : Action → Bool
  | .claim _ => true
  | _ => false

/-- The calls that a step may make. -/
def System.calls (s : System) (a : Action) : Jobs.Op ℕ → Bool
  | .create .. => a.enrols
  | .wake runId => s.tasks.wakes a = some runId
  | .claim .. => a.claims
  | .renew c _ | .checkpoint c .. | .complete c => (s.tasks.acting a).any (·.claim = c)
  | .retry c .. => (s.retrying a).any (·.claim = c)

/-- No step makes any other call. -/
theorem section_calls {a : Action} {p : Prog Tasks} (hp : t.Runs w a p) (hdrawn : u.Drawn) (ht : t.Fits u) :
    Along (fun _ x => x.calls ((System.mk u t).calls a)) u (p u).2 := by
  generalize hok : (System.mk u t).calls a = ok
  have hrequest : ∀ {m : Prog Unit}, Calls ok m → Writes (fun _ x => x.calls ok) (t.request m) u :=
    fun hm => writes_bind (hm u) fun _ _ => writes_pure _
  have hattempt : ∀ {α : Type} {m : Prog α} {k : Except Fault α → Prog Tasks}, Writes (fun _ x => x.calls ok) m u →
      (∀ result, ∃ t, k result = pure t) → Writes (fun _ x => x.calls ok) (m.attempt >>= k) u := by
    intro α m k hm hk
    refine writes_bind (m := m.attempt) hm fun result _ => ?_
    obtain ⟨t, ht⟩ := hk result
    rw [ht]
    exact writes_pure t
  have hstands : ∀ {runId : ℕ} {P : RunData → Prop}, u.Has runId P → ∃ c, Stands u runId c u.jobs := by
    rintro runId P ⟨-, d, hd, -⟩
    exact ⟨d.standing, by rw [World.standing, hd]; rfl, rfl, hdrawn⟩
  cases hp with
  | createDataset tenantId => exact hrequest (calls_aside (aside_createDataset tenantId))
  | createRun r tenantId request admitted =>
    exact hrequest (calls_createRun (fun _ _ _ _ _ _ => hok ▸ rfl) r tenantId request admitted)
  | answer r tenantId runId request => exact hrequest (calls_answer (by simp [← hok, System.calls, Tasks.wakes]) r tenantId request)
  | control r tenantId runId c revision => exact hrequest (calls_control (by simp [← hok, System.calls, Tasks.wakes]) r tenantId c revision)
  | decide now tenantId runId approvalId evidenceVersion decision human =>
    exact hrequest (calls_decide now tenantId approvalId evidenceVersion decision human)
  | startFinalize tenantId request =>
    exact writes_bind (calls_aside (aside_startFinalize tenantId request) u) fun _ _ => writes_pure _
  | endFinalize stored request => exact hattempt (calls_aside (aside_endFinalize request stored) u) fun _ => ⟨_, rfl⟩
  | startDeletion tenantId datasetId =>
    exact writes_bind (calls_aside (aside_startDeletion tenantId datasetId) u) fun _ _ => writes_pure _
  | continueDeletion index r done task htask =>
    have hdeletion : Calls ok (continueDeletion r done task) := by
      refine calls_continueDeletion r done task fun id rest hchores => ?_
      obtain ⟨datasetId, tenantId, chores⟩ := task
      cases hchores
      simp [← hok, System.calls, Tasks.wakes, htask]
    refine writes_bind (hdeletion u) fun rest _ => ?_
    cases rest <;> exact writes_pure _
  | boot r =>
    have hrepair : Calls ok (ensureExecutionJobs r) :=
      always_read_bind fun v => calls_repairJobs (fun _ _ _ _ _ _ => hok ▸ rfl) r v.runs
    exact writes_bind (hrepair u) fun _ _ => writes_pure _
  | claim r =>
    have hclaim : Calls ok (onJobs r (.claim w.workerId w.leaseSeconds)) := always_onJobs (hok ▸ rfl)
    exact hattempt (hclaim u) fun result => by rcases result with _ | (_ | _) <;> exact ⟨_, rfl⟩
  | start job hworker =>
    have hminds : Minds ⟨job.runId, false, true⟩ (startHandler job) := minds_startHandler job
    exact hattempt (calls_of_quiet hminds u) fun _ => ⟨_, rfl⟩
  | profileRead => exact writes_pure _
  | enter r job entry hworker =>
    have hfits := ht.worker
    rw [hworker] at hfits
    obtain ⟨-, d, hd, -⟩ := hfits
    refine hattempt (calls_enter hd hdrawn entry fun _ _ => ?_) fun _ => ⟨_, rfl⟩
    simp [← hok, System.calls, Tasks.acting, hworker]
  | resultStored r stored job pending hworker =>
    have hfits := ht.worker
    rw [hworker] at hfits
    obtain ⟨c, hc⟩ := hstands hfits
    refine hattempt (calls_of_spoken (says_published (says_resumeResult hc pending stored)) ?_) fun _ => ⟨_, rfl⟩
    rintro _ l ⟨result', -, hpublishes⟩
    exact calls_publishes hpublishes
  | settle r job outcome hworker =>
    have hsettle : Calls ok (settle w r job outcome) := by
      refine calls_settle outcome ?_ (fun _ _ _ => ?_) fun hretries _ _ => ?_
      · simp [← hok, System.calls, Tasks.acting, hworker]
      · simp [← hok, System.calls, Tasks.acting, hworker]
      · simp [← hok, System.calls, System.retrying, hworker, hretries]
    exact hattempt (hsettle u) fun result => by cases result <;> exact ⟨_, rfl⟩
  | heartbeat r job hworker =>
    have hrenew : Calls ok (onJobs r (.renew job.claim w.leaseSeconds)) := by
      refine always_onJobs ?_
      rcases hworker with ⟨_, hworker⟩ | ⟨_, hworker⟩ <;> simp [Write.calls, ← hok, System.calls, Tasks.acting, hworker]
    exact hattempt (hrenew u) fun result => by cases result <;> exact ⟨_, rfl⟩
  | stopIdle => exact writes_pure _
  | stop r job hworker =>
    have hretry : Calls ok (retryJob r job 0 "CancelledError: worker stopped") := by
      refine calls_retryJob (fun _ _ => ?_) _ _
      rcases hworker with ⟨_, hworker⟩ | ⟨_, hworker⟩ <;> simp [← hok, System.calls, System.retrying, hworker]
    exact hattempt (hretry u) fun _ => ⟨_, rfl⟩
  | callback r call job stage hthread =>
    have hrenew : Calls ok (onJobs r (.renew job.claim w.leaseSeconds)) :=
      always_onJobs (by simp [Write.calls, ← hok, System.calls, Tasks.acting, hthread])
    exact hattempt (hrenew u) fun result => by cases result <;> exact ⟨_, rfl⟩
  | publish job stage call hthread =>
    obtain ⟨c, hc⟩ := hstands (ht.thread _ hthread).2
    refine hattempt (calls_of_spoken (says_publishStage hc call) fun _ l hl => ?_) fun result => ?_
    · exact calls_orNone (calls_transitions _ _) hl.2
    · rcases result with f | (_ | pending) <;> exact ⟨_, rfl⟩
  | splitStored stored job stage call pending hthread =>
    obtain ⟨c, hc⟩ := hstands (ht.thread _ hthread).2
    refine hattempt (calls_of_spoken (orNone_bind_pure (says_resumeStage hc pending stored)) fun _ l hl => ?_) fun result => ?_
    · exact calls_orNone (calls_transitions _ _) hl
    · rcases result with f | (_ | pending) <;> exact ⟨_, rfl⟩
  | threadEnds => exact writes_pure _

end AutomlApi.Workflow
