import AutomlApi.Workflow.Sections

/-! The steps that slip. A law that the workflow does not keep is broken by a few steps,
which are told by what they find before they do anything; a step that makes no slip is
granted what it needs. -/

namespace AutomlApi.Workflow

open Jobs (Job)

variable {lw : Leeway} {s : System} {a : Action} {d : RunData}

instance (c : Control) (run : Run) (revision : Option ℕ) : Decidable (c.Passes run revision) :=
  decidable_of_iff ((∀ expected ∈ revision, run.runRevision = expected) ∧ run.status ≠ .terminal ∧
      c.command ∈ run.availableActions ∧ (c = .resume → run.status = .paused) ∧ (c = .pause → run.status ≠ .paused))
    ⟨fun ⟨h₁, h₂, h₃, h₄, h₅⟩ => ⟨h₁, h₂, h₃, h₄, h₅⟩, fun h => ⟨h.revision, h.live, h.available, h.resume, h.pause⟩⟩

instance (d : RunData) (now : Jobs.Time) (tenantId : String) (approvalId evidenceVersion : ℕ) (human : Except Problem Unit) :
    Decidable (d.Decides now tenantId approvalId evidenceVersion human) :=
  decidable_of_iff (d.run.tenantId = tenantId ∧ human.isOk ∧ d.run.status = .waitingApproval ∧
      ∃ approval ∈ d.approvals.find? (·.approvalId = approvalId),
        approval.status = .opened ∧ approval.evidenceVersion = evidenceVersion ∧ ¬ approval.expiresAt ≤ now)
    ⟨fun ⟨h₁, h₂, h₃, h₄⟩ => ⟨h₁, h₂, h₃, h₄⟩, fun h => ⟨h.tenant, h.human, h.waits, h.approval⟩⟩

namespace System

/-! ### The run that a step ends -/

/-- The run that a cancel would end. -/
def canceling (s : System) (tenantId : String) (runId : ℕ) (revision : Option ℕ) : Option RunData :=
  (s.world.runs.get runId).filter fun d =>
    d.run.tenantId = tenantId ∧ Control.cancel.Passes d.run revision ∧ d.result = none

/-- The run that the retry of a job would end. -/
def burying (s : System) (job : Job ℕ) : Option RunData :=
  (s.world.runs.get job.runId).filter fun d =>
    s.world.Exhausted job ∧ d.run.status ≠ .terminal ∧ d.result = none

/-- The run that a publication would end. -/
def concluding (s : System) (job : Job ℕ) (result : TrainingResult) : Option RunData :=
  (s.world.runs.get job.runId).filter fun d =>
    d.run.status ≠ .terminal ∧ d.run.status ≠ .paused ∧ d.result = none ∧ ¬ (d.run.requiresApproval ∧ result.exportable)

/-- The run that a step is about to end, if it gets so far. -/
def ending (s : System) : Action → Option RunData
  | .control _ tenantId runId .cancel revision => s.canceling tenantId runId revision
  | .continueDeletion index _ _ =>
    match s.tasks.deletions[index]? with
    | some ⟨_, tenantId, .cancel runId :: _⟩ => s.canceling tenantId runId none
    | _ => none
  | .decide now tenantId runId approvalId evidenceVersion _ human =>
    (s.world.runs.get runId).filter fun d => d.Decides now tenantId approvalId evidenceVersion human ∧ d.result = none
  | .enter _ =>
    match s.tasks.worker with
    | .handling job (.queueing (.engineError _)) => (s.world.runs.get job.runId).filter fun d => d.result = none
    | .handling job (.queueing (.trained result)) => s.concluding job result
    | _ => none
  | .resultStored _ _ =>
    match s.tasks.worker with
    | .handling job (.publishing p) => s.concluding job p.result
    | _ => none
  | .settle _ =>
    match s.tasks.worker with
    | .settling job outcome => if Retries outcome then s.burying job else none
    | _ => none
  | .stop _ =>
    match s.tasks.worker with
    | .handling job _ | .settling job _ => s.burying job
    | _ => none
  | _ => none

/-! ### Slips -/

/-- A step that ends a run of which an approval is open; only a decision closes it. -/
def leavesApproval (s : System) : Action → Bool
  | .decide .. => false
  | a => (s.ending a).any fun d => ¬ d.Unasked

/-- A step that ends a run of which a question is open; a cancel closes it, and a decision
finds none. -/
def leavesQuestion (s : System) : Action → Bool
  | .decide .. | .control .. | .continueDeletion .. => false
  | a => (s.ending a).any fun d => ¬ d.Quiet

/-- A step that ends a run of which an answer has not been taken up. -/
def leavesAnswer (s : System) (a : Action) : Bool := (s.ending a).any fun d => ¬ d.Settled

/-- A step that works on a run that has been paused. -/
def overridesPause (s : System) : Action → Bool
  | .enter _ =>
    match s.tasks.worker with
    | .handling job (.queueing (.profiled _)) | .handling job (.queueing .resolve)
    | .handling job (.queueing (.positiveClass _)) => (s.world.runs.get job.runId).any (·.run.status = .paused)
    | _ => false
  | .publish | .splitStored true => s.tasks.thread.any fun thread =>
      (s.world.runs.get thread.job.runId).any (·.run.status = .paused)
  | _ => false

/-- A profile that is taken up for a run that goes on and has its report already. -/
def reprofiles (s : System) : Action → Bool
  | .enter _ =>
    match s.tasks.worker with
    | .handling job (.queueing (.profiled _)) => (s.world.runs.get job.runId).any fun d =>
        d.run.status ≠ .terminal ∧ ∃ o ∈ d.outputs, o.type = .dataQualityReport
    | _ => false
  | _ => false

/-- A profile that is taken up. -/
def takesProfile (s : System) : Action → Bool
  | .enter _ =>
    match s.tasks.worker with
    | .handling _ (.queueing (.profiled _)) => true
    | _ => false
  | _ => false

/-- A split that goes on to be published although the run has got its result meanwhile. -/
def resumesClosed (s : System) : Action → Bool
  | .splitStored true => s.tasks.thread.any fun thread => (s.world.runs.get thread.job.runId).any (·.result.isSome)
  | _ => false

/-- A question, or a split, that comes to a run that has ended. -/
def revivesEnded (s : System) : Action → Bool
  | .enter _ =>
    match s.tasks.worker with
    | .handling job (.queueing (.positiveClass _)) => (s.world.runs.get job.runId).any (·.run.status = .terminal)
    | _ => false
  | .splitStored true => s.tasks.thread.any fun thread =>
      (s.world.runs.get thread.job.runId).any (·.run.status = .terminal)
  | _ => false

/-- A failure of the backend that comes to a run that has ended. -/
def reportsEnded (s : System) : Action → Bool
  | .enter _ =>
    match s.tasks.worker with
    | .handling job (.queueing (.engineError _)) => (s.world.runs.get job.runId).any (·.run.status = .terminal)
    | _ => false
  | _ => false

end System

/-! ### Steps without a slip -/

/-- Every slip of a step is allowed. -/
structure Leeway.Excuses (lw : Leeway) (s : System) (a : Action) : Prop where
  leaves : lw.leaves ∨ (s.leavesApproval a = false ∧ s.leavesQuestion a = false)
  unsettled : lw.unsettled ∨ s.leavesAnswer a = false
  overrides : lw.overrides ∨ s.overridesPause a = false
  twice : lw.twice ∨ s.reprofiles a = false
  stale : lw.stale ∨ s.resumesClosed a = false
  revives : (lw.revives ∧ lw.appends) ∨ s.revivesEnded a = false
  appends : lw.appends ∨ s.reportsEnded a = false
  profiles : lw.profiles ∨ s.takesProfile a = false

/-- With every allowance every step is excused. -/
theorem Leeway.Excuses.all (s : System) (a : Action) : Leeway.all.Excuses s a :=
  ⟨.inl trivial, .inl trivial, .inl trivial, .inl trivial, .inl trivial, .inl ⟨trivial, trivial⟩, .inl trivial, .inl trivial⟩

theorem Leeway.Excuses.at (h : lw.Excuses s a) (a' : Action) : (lw.at a').Excuses s a :=
  ⟨h.leaves, h.unsettled, h.overrides, h.twice, h.stale, h.revives, h.appends, h.profiles⟩

theorem any_eq_false {α : Type} {o : Option α} {p : α → Bool} (h : o.any p = false) {x : α} (hx : o = some x) :
    p x = false := by
  subst hx
  exact h

theorem mem_filter {α : Type} {o : Option α} {p : α → Bool} {x : α} (hx : o = some x) (hp : p x) : o.filter p = some x := by
  subst hx
  exact Option.filter_eq_some_iff.mpr ⟨rfl, hp⟩

/-- What a step that closes nothing finds of the run that it ends. -/
theorem Leeway.Excuses.closable (h : lw.Excuses s a) (hd : s.ending a = some d)
    (happroval : s.leavesApproval a = (s.ending a).any fun d => ¬ d.Unasked)
    (hquestion : s.leavesQuestion a = (s.ending a).any fun d => ¬ d.Quiet) : Closable lw d := by
  constructor
  · refine h.leaves.imp_right fun ⟨hunasked, hquiet⟩ => ?_
    rw [happroval] at hunasked
    rw [hquestion] at hquiet
    exact ⟨by simpa using any_eq_false hquiet hd, by simpa using any_eq_false hunasked hd⟩
  · refine h.unsettled.imp_right fun h => ?_
    simpa using any_eq_false h hd

/-- What a cancel finds of the run that it ends. -/
theorem Leeway.Excuses.cancelable (h : lw.Excuses s a) {tenantId : String} {runId : ℕ} {revision : Option ℕ}
    (hending : s.ending a = s.canceling tenantId runId revision)
    (happroval : s.leavesApproval a = (s.ending a).any fun d => ¬ d.Unasked) (hd : s.world.runs.get runId = some d) :
    d.Cancelable lw tenantId revision := by
  intro htenant hpasses hopen
  have hd : s.ending a = some d := by
    rw [hending]
    exact mem_filter hd (by simp [htenant, hpasses, hopen])
  constructor
  · refine h.leaves.imp_right fun ⟨hunasked, _⟩ => ?_
    rw [happroval] at hunasked
    simpa using any_eq_false hunasked hd
  · refine h.unsettled.imp_right fun h => ?_
    simpa using any_eq_false h hd

/-- What a publication finds of the run that it ends, unless it comes to an approval. -/
theorem Leeway.Excuses.concluded (h : lw.Excuses s a) {job : Job ℕ} {result : TrainingResult}
    (hending : s.ending a = s.concluding job result)
    (happroval : s.leavesApproval a = (s.ending a).any fun d => ¬ d.Unasked)
    (hquestion : s.leavesQuestion a = (s.ending a).any fun d => ¬ d.Quiet) (hd : s.world.runs.get job.runId = some d)
    (hlive : d.run.status ≠ .terminal) (hunpaused : d.run.status ≠ .paused) : d.Concluded lw result := by
  intro hopen
  by_cases hasked : d.run.requiresApproval ∧ result.exportable
  · exact .inl hasked
  · refine .inr (h.closable ?_ happroval hquestion)
    rw [hending]
    exact mem_filter hd (decide_eq_true ⟨hlive, hunpaused, hopen, hasked⟩)

/-- What a retry finds of the run that it ends. -/
theorem Leeway.Excuses.buriable (h : lw.Excuses s a) {job : Job ℕ} (hending : s.ending a = s.burying job)
    (happroval : s.leavesApproval a = (s.ending a).any fun d => ¬ d.Unasked)
    (hquestion : s.leavesQuestion a = (s.ending a).any fun d => ¬ d.Quiet) : s.world.Buriable lw job := by
  intro hex d hd hlive hopen
  refine h.closable ?_ happroval hquestion
  rw [hending]
  exact mem_filter hd (decide_eq_true ⟨hex, hlive, hopen⟩)

/-- A step that makes no slip, but those that are allowed, is granted what it needs. -/
theorem grants_of_excuses (h : lw.Excuses s a) : Grants lw s.world s.tasks a := by
  have hunpaused : ∀ {d : RunData}, (lw.overrides ∨ d.run.status ≠ .paused) → d.Unpaused lw := fun h _ => h
  cases a with
  | control r tenantId runId c revision =>
    cases c with
    | cancel => exact fun d hd => h.cancelable rfl rfl hd
    | pause | resume => trivial
  | continueDeletion index r ok =>
    intro task runId rest htask hchores d hd
    refine h.cancelable ?_ rfl hd
    obtain ⟨id, tenantId, chores⟩ := task
    cases hchores
    simp only [System.ending, htask]
  | decide now tenantId runId approvalId evidenceVersion decision human =>
    intro d hd hdecides hopen
    refine h.unsettled.imp_right fun h => ?_
    have hending : s.ending (.decide now tenantId runId approvalId evidenceVersion decision human) = some d :=
      mem_filter hd (by simp [hdecides, hopen])
    simpa using any_eq_false h hending
  | enter r =>
    intro job entry hworker d hd
    cases entry with
    | profiled columns =>
      refine ⟨h.profiles.resolve_right fun h => ?_, hunpaused (h.overrides.imp_right fun h => ?_),
        fun hlive => h.twice.imp_right fun h => ?_⟩
      · simp [System.takesProfile, hworker] at h
      · simp only [System.overridesPause, hworker] at h
        simpa using any_eq_false h hd
      · simp only [System.reprofiles, hworker] at h
        have hfirst := any_eq_false h hd
        intro o ho htype
        simp only [hlive, ne_eq, not_false_eq_true, true_and, decide_eq_false_iff_not] at hfirst
        exact hfirst ⟨o, ho, htype⟩
    | resolve =>
      refine hunpaused (h.overrides.imp_right fun h => ?_)
      simp only [System.overridesPause, hworker] at h
      simpa using any_eq_false h hd
    | train => trivial
    | positiveClass classes =>
      refine ⟨hunpaused (h.overrides.imp_right fun h => ?_), h.revives.imp_right fun h => ?_⟩
      · simp only [System.overridesPause, hworker] at h
        simpa using any_eq_false h hd
      · simp only [System.revivesEnded, hworker] at h
        simpa using any_eq_false h hd
    | engineError code =>
      refine ⟨h.appends.imp_right fun h => ?_, fun hopen => h.closable ?_ rfl rfl⟩
      · simp only [System.reportsEnded, hworker] at h
        simpa using any_eq_false h hd
      · simp only [System.ending, hworker]
        exact mem_filter hd (by simp [hopen])
    | trained result =>
      refine fun hlive hunpaused => h.concluded ?_ rfl rfl hd hlive hunpaused
      simp only [System.ending, hworker]
  | resultStored r stored =>
    intro job p hworker d hd hlive hunpaused
    refine h.concluded ?_ rfl rfl hd hlive hunpaused
    simp only [System.ending, hworker]
  | settle r =>
    intro job outcome hworker hretries
    refine h.buriable ?_ rfl rfl
    simp only [System.ending, hworker, hretries, if_true]
  | stop r =>
    rintro job (⟨place, hworker⟩ | ⟨outcome, hworker⟩)
    · refine h.buriable ?_ rfl rfl
      simp only [System.ending, hworker]
    · refine h.buriable ?_ rfl rfl
      simp only [System.ending, hworker]
  | publish =>
    intro thread hthread d hd
    refine hunpaused (h.overrides.imp_right fun h => ?_)
    simpa using any_eq_false (any_eq_false h hthread) hd
  | splitStored stored =>
    intro hstored thread hthread d hd
    subst hstored
    refine ⟨fun hclosed => h.stale.resolve_right fun h => ?_, h.revives.imp_right fun h => ?_,
      hunpaused (h.overrides.imp_right fun h => ?_)⟩
    · have := any_eq_false (any_eq_false h hthread) hd
      rw [hclosed] at this
      cases this
    · simpa using any_eq_false (any_eq_false h hthread) hd
    · simpa using any_eq_false (any_eq_false h hthread) hd
  | _ => trivial

end AutomlApi.Workflow
