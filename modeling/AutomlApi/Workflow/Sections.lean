import AutomlApi.Workflow.Places

/-! What a step of the process does to the runs: its records are lawful, as far as what
it finds grants, and the tasks that it leaves fit the world that it leaves. -/

namespace AutomlApi.Workflow

open Durable
open Jobs (Job Readings)
open Worker (LocalExecutionWorker)

variable {lw : Leeway} {s : World} {t : Tasks} {α β : Type}

/-! ### What a step is granted -/

/-- The steps that work on the run of a job. -/
def Action.works : Action → Bool
  | .start | .enter _ | .resultStored .. | .publish | .splitStored _ => true
  | _ => false

/-- The steps that may bring a run to an approval, or to its success. -/
def Action.approves : Action → Bool
  | .enter _ | .resultStored .. | .decide .. => true
  | _ => false

/-- The steps that may ask a question. -/
def Action.questions : Action → Bool
  | .enter _ => true
  | _ => false

/-- The steps that may run a control command. -/
def Action.commands : Action → Bool
  | .control .. | .continueDeletion .. => true
  | _ => false

/-- The steps that may move a job to another step. -/
def Action.moves : Action → Bool
  | .settle _ => true
  | _ => false

/-- The steps that may close a question. -/
def Action.closes : Action → Bool
  | .answer .. | .control _ _ _ .cancel _ | .continueDeletion .. => true
  | _ => false

/-- The steps that may take an answer. -/
def Action.answers : Action → Bool
  | .answer .. => true
  | _ => false

/-- The runs that a step may create. -/
def Action.creates : Action → RunRequest → String → Prop
  | .createRun _ tenantId request _ => fun request' tenantId' => request' = request ∧ tenantId' = tenantId
  | _ => fun _ _ => False

/-- What a step is allowed. -/
def Leeway.at (lw : Leeway) (a : Action) : Leeway :=
  { lw with
    works := a.works, questions := a.questions, approves := a.approves, commands := a.commands, closes := a.closes
    moves := a.moves, answers := a.answers, creates := a.creates }

/-- A step that would fail the run may do so. -/
def RunData.Finished (lw : Leeway) (d : RunData) : Prop := d.result = none → Closable lw d

/-- A publication of the result comes to an approval, or may end the run. -/
def RunData.Concluded (lw : Leeway) (result : TrainingResult) (d : RunData) : Prop :=
  d.result = none → (d.run.requiresApproval ∧ result.exportable) ∨ Closable lw d

/-- A cancel that passes its checks may end the run, whose questions it closes itself. -/
def RunData.Cancelable (lw : Leeway) (tenantId : String) (revision : Option ℕ) (d : RunData) : Prop :=
  d.run.tenantId = tenantId → Control.cancel.Passes d.run revision → d.result = none →
    (lw.leaves ∨ d.Unasked) ∧ (lw.unsettled ∨ d.Settled)

/-- The run has not been paused. -/
def RunData.Unpaused (lw : Leeway) (d : RunData) : Prop :=
  d.run.status ≠ .terminal → lw.overrides ∨ d.run.status ≠ .paused

def Entry.Grants (lw : Leeway) (d : RunData) : Entry → Prop
  | .profiled _ => lw.profiles ∧ d.Unpaused lw ∧
      (d.run.status ≠ .terminal → lw.twice ∨ ∀ o ∈ d.outputs, o.type ≠ .dataQualityReport)
  | .resolve => d.Unpaused lw
  | .train => True
  | .positiveClass _ => d.Unpaused lw ∧ ((lw.revives ∧ lw.appends) ∨ d.run.status ≠ .terminal)
  | .engineError _ => (lw.appends ∨ d.run.status ≠ .terminal) ∧ d.Finished lw
  | .trained result => d.run.status ≠ .terminal → d.run.status ≠ .paused → d.Concluded lw result

/-- The job has no attempt left. -/
def World.Exhausted (w : World) (job : Job ℕ) : Bool :=
  (w.jobs.lookup job.runId).any fun row => row.maxAttempts ≤ row.attempt

/-- A job without an attempt left only fails a run of which nothing is open. -/
def World.Buriable (lw : Leeway) (w : World) (job : Job ℕ) : Prop :=
  w.Exhausted job → ∀ d, w.runs.get job.runId = some d → d.run.status ≠ .terminal → d.Finished lw

/-- The outcome makes the worker retry the job. -/
def Retries : Worker.Outcome → Bool
  | .raised _ | .cancelled => true
  | _ => false

/-- A split is stored for a run that has not ended meanwhile. -/
structure RunData.Resumable (lw : Leeway) (d : RunData) : Prop where
  stale : d.result.isSome → lw.stale
  live : (lw.revives ∧ lw.appends) ∨ d.run.status ≠ .terminal
  unpaused : d.Unpaused lw

/-- What a step must find for its records to keep within what it is allowed. -/
def Grants (lw : Leeway) (w : World) (t : Tasks) : Action → Prop
  | .control _ tenantId runId .cancel revision => ∀ d, w.runs.get runId = some d → d.Cancelable lw tenantId revision
  | .continueDeletion index _ _ => ∀ task runId rest, t.deletions[index]? = some task →
      task.chores = .cancel runId :: rest → ∀ d, w.runs.get runId = some d → d.Cancelable lw task.tenantId none
  | .decide now tenantId runId approvalId evidenceVersion _ human => ∀ d, w.runs.get runId = some d →
      d.Decides now tenantId approvalId evidenceVersion human → d.result = none → lw.unsettled ∨ d.Settled
  | .enter _ => ∀ job entry, t.worker = .handling job (.queueing entry) →
      ∀ d, w.runs.get job.runId = some d → entry.Grants lw d
  | .resultStored _ _ => ∀ job p, t.worker = .handling job (.publishing p) →
      ∀ d, w.runs.get job.runId = some d → d.run.status ≠ .terminal → d.run.status ≠ .paused → d.Concluded lw p.result
  | .settle _ => ∀ job outcome, t.worker = .settling job outcome → Retries outcome → w.Buriable lw job
  | .stop _ => ∀ job, (∃ place, t.worker = .handling job place) ∨ (∃ outcome, t.worker = .settling job outcome) →
      w.Buriable lw job
  | .publish => ∀ thread ∈ t.thread, ∀ d, w.runs.get thread.job.runId = some d → d.Unpaused lw
  | .splitStored stored => stored → ∀ thread ∈ t.thread, ∀ d, w.runs.get thread.job.runId = some d → d.Resumable lw
  | _ => True

/-! ### Tasks after a step -/

/-- The tasks that a section leaves fit the world that it leaves. -/
def Tasks.After (t : Tasks) : Except Fault Tasks → World → Prop
  | .ok t', w => t'.Fits w
  | .error _, w => t.Fits w

/-- A section whose records are lawful and which leaves tasks that fit. -/
def Proceeds (lw : Leeway) (t : Tasks) (p : Prog Tasks) (s : World) : Prop :=
  Ends (fun w x => w.Lawful lw x) p s t.After

/-- A section without a record. -/
theorem proceeds_pure {t' : Tasks} (h : t'.Fits s) : Proceeds lw t (pure t') s := ends_pure h

/-- What no worker does: it is lawful, and leaves the runs to their workers. -/
structure Requests (lw : Leeway) (p : Prog α) (s : World) : Prop where
  lawful : Writes (World.Lawful lw) p s
  keeps : s.Keeps (p.final s)

theorem requests_bind {m : Prog α} {k : α → Prog β} (hm : Requests lw m s)
    (hk : ∀ a, (m s).1 = .ok a → Requests lw (k a) (m.final s)) : Requests lw (m >>= k) s := by
  have hends : Ends (World.Lawful lw) (m >>= k) s fun _ u => s.Keeps u := by
    refine ends_bind ⟨hm.lawful, ?_⟩
    cases hr : (m s).1 with
    | ok a => exact ⟨(hk a hr).lawful, hm.keeps.trans (hk a hr).keeps⟩
    | error e => exact hm.keeps
  exact ⟨hends.1, hends.2⟩

/-- A section that leaves the worker and the training thread where they are. -/
theorem proceeds_bind {m : Prog α} {k : α → Prog Tasks} (ht : t.Fits s) (hm : Requests lw m s)
    (hlock : t.locked → s.Holds (m.final s))
    (hk : ∀ a, ∃ t', k a = pure t' ∧ t'.worker = t.worker ∧ t'.thread = t.thread) : Proceeds lw t (m >>= k) s := by
  have hfits := ht.keeps hm.keeps hlock
  refine ends_bind ⟨hm.lawful, ?_⟩
  cases (m s).1 with
  | error f => exact hfits
  | ok a =>
    obtain ⟨t', hpure, hworker, hthread⟩ := hk a
    dsimp only
    rw [hpure]
    exact ends_pure ⟨hworker ▸ hfits.worker, by rw [hworker, hthread]; exact hfits.thread⟩

/-- A request, which leaves the tasks as they are. -/
theorem proceeds_request {p : Prog Unit} (ht : t.Fits s) (hp : Requests lw p s)
    (hlock : t.locked → s.Holds (p.final s)) : Proceeds lw t (t.request p) s :=
  proceeds_bind ht hp hlock fun _ => ⟨t, rfl, rfl, rfl⟩

/-! ### Requests about datasets -/

/-- A record that changes no run, but for the state of its artifacts, and no row. -/
def Write.aside : Write → Bool
  | .run .. | .job .. => false
  | .on _ (.artifactState ..) _ => true
  | .on .. => false
  | _ => true

/-- All records of the program are of a kind, wherever it starts. -/
def Always (kind : Write → Bool) (m : Prog α) : Prop := ∀ s, Writes (fun _ x => kind x) m s

/-- A program that only writes such records. -/
abbrev Aside (p : Prog α) : Prop := Always Write.aside p

section Always

variable {kind : Write → Bool} {runId : ℕ}

theorem always_bind {m : Prog α} {k : α → Prog β} (hm : Always kind m) (hk : ∀ a, Always kind (k a)) :
    Always kind (m >>= k) := fun s => writes_bind (hm s) fun a _ => hk a _

theorem always_pure (a : α) : Always kind (pure a : Prog α) := fun _ => writes_pure a

theorem always_raise (f : Fault) : Always kind (raise f : Prog α) := fun _ => writes_raise f

theorem always_check (r : Except Fault α) : Always kind (check r : Prog α) := fun _ => writes_check r

theorem always_read_bind {k : World → Prog β} (hk : ∀ w, Always kind (k w)) : Always kind (read >>= k) :=
  always_bind (fun _ => writes_read) hk

theorem always_write {x : Write} (hx : kind x) : Always kind (write x) := fun _ => writes_write hx

theorem always_newId (h : kind .newId) : Always kind newId :=
  always_read_bind fun _ => always_bind (always_write h) fun _ => always_pure _

theorem always_find : Always kind (find runId) := by
  intro s
  rw [Writes, find_writes]
  trivial

theorem always_change {c : Change} (h : kind (.on runId c false)) : Always kind (change runId c) :=
  always_bind always_find fun _ => always_bind (always_write h) fun _ => always_pure _

theorem always_changeWithId {c : ℕ → Change} (h : ∀ id, kind (.on runId (c id) true)) : Always kind (changeWithId runId c) :=
  always_bind always_find fun _ => always_read_bind fun _ => always_bind (always_write (h _)) fun _ => always_pure _

theorem always_onJobs {r : Readings} {op : Jobs.Op ℕ} (h : kind (.job r op)) : Always kind (onJobs r op) := by
  refine always_read_bind fun w => ?_
  cases (op.apply w.jobs r).2 with
  | ok reply => exact always_bind (always_write h) fun _ => always_pure _
  | error fault => exact always_raise _

theorem always_createExecutionJob {r : Readings} {workflowStep : String} {fields : Store.Fields}
    (h : ∀ op, kind (.job r op)) : Always kind (createExecutionJob r runId workflowStep fields) :=
  always_read_bind fun _ => always_bind (always_onJobs (h _)) fun _ => always_pure _

end Always

theorem lawful_aside (hw : ¬ lw.works) {x : Write} (hx : x.aside) : s.Lawful lw x := by
  cases x with
  | run | job => cases hx
  | on runId c drawsId =>
    cases c with
    | artifactState id state => exact ⟨fun h => absurd h hw, fun _ _ => .artifactState id state⟩
    | _ => cases hx
  | _ => trivial

theorem artifacts_apply {x : Write} (hx : x.aside) {runId : ℕ} {d : RunData} (hd : s.runs.get runId = some d) :
    ∃ artifacts, (s.apply x).runs.get runId = some { d with artifacts := artifacts } := by
  cases x with
  | run | job => cases hx
  | on id c drawsId =>
    cases c with
    | artifactState id' state =>
      simp only [World.apply, get_modifyKey]
      by_cases hid : runId = id
      · subst hid
        rw [if_pos rfl, hd]
        exact ⟨_, rfl⟩
      · rw [if_neg hid]
        exact ⟨d.artifacts, hd⟩
    | _ => cases hx
  | _ => exact ⟨d.artifacts, hd⟩

/-- Such a program leaves all that the tasks count on. -/
theorem requests_aside {m : Prog α} (hm : Aside m) (hw : ¬ lw.works) (s : World) :
    Requests lw m s ∧ s.Holds (m.final s) := by
  have hidle : Writes (World.Lawful .idle) m s := (hm s).mono fun _ _ hx => lawful_aside id hx
  refine ⟨⟨(hm s).mono fun _ _ hx => lawful_aside hw hx, keeps_of_writes hidle id id id⟩, fun runId d hd _ => ?_⟩
  refine (hm s).final (P := fun u => ∃ artifacts, u.runs.get runId = some { d with artifacts := artifacts }) ?_
    ⟨d.artifacts, hd⟩
  rintro u x ⟨artifacts, ha⟩ hx
  obtain ⟨artifacts', ha'⟩ := artifacts_apply hx ha
  exact ⟨artifacts', ha'⟩

theorem aside_createDataset (tenantId : String) : Aside (createDataset tenantId) :=
  always_bind (always_newId rfl) fun _ => always_write rfl

theorem aside_startFinalize (tenantId : String) (request : FinalizeRequest) :
    Aside (startFinalize tenantId request) := by
  refine always_read_bind fun w => always_bind (always_check _) fun version => ?_
  split
  · exact always_pure _
  · exact always_bind (always_check _) fun _ => always_pure _

theorem aside_endFinalize (request : FinalizeRequest) (stored : Bool) : Aside (endFinalize request stored) := by
  cases stored with
  | true => exact always_bind (always_write rfl) fun _ => always_write rfl
  | false => exact always_raise _

theorem aside_artifactState (runId artifactId : ℕ) (state : ArtifactState) :
    Aside (change runId (.artifactState artifactId state)) := always_change rfl

theorem aside_markVersions (versions : List ℕ) : Aside (markVersions versions) := by
  induction versions with
  | nil => exact always_pure _
  | cons versionId rest ih => exact always_bind (always_write rfl) fun _ => ih

theorem aside_markArtifacts (artifacts : List (ℕ × ℕ)) : Aside (markArtifacts artifacts) := by
  induction artifacts with
  | nil => exact always_pure _
  | cons p rest ih => exact always_bind (aside_artifactState p.1 p.2 .deleting) fun _ => ih

theorem aside_startDeletion (tenantId : String) (datasetId : ℕ) : Aside (startDeletion tenantId datasetId) := by
  refine always_read_bind fun w => always_bind (always_check _) fun _ => ?_
  refine always_bind (always_write rfl) fun _ => always_bind (always_write rfl) fun _ => ?_
  exact always_bind (aside_markVersions _) fun _ => always_bind (aside_markArtifacts _) fun _ => always_pure _

theorem aside_perform (r : Readings) (tenantId : String) (ok : Bool) {chore : Chore} (hc : ∀ runId, chore ≠ .cancel runId) :
    Aside (chore.perform r tenantId ok) := by
  cases chore with
  | cancel runId => exact absurd rfl (hc runId)
  | removeVersion | removeArtifact =>
    cases ok with
    | true => exact always_write rfl
    | false => exact always_raise _
  | forgetArtifact runId artifactId =>
    exact always_bind (aside_artifactState runId artifactId .deleted) fun _ => always_pure _

/-! ### Requests about runs -/

/-- A request that does nothing. -/
theorem requests_of_nil {p : Prog α} (h : (p s).2 = []) : Requests lw p s := by
  refine ⟨by rw [Writes, h]; trivial, ?_⟩
  rw [final, h]
  exact .refl s

theorem ownedRun_bind_none {tenantId : String} {runId : ℕ} (k : RunData → Prog α) (h : s.runs.get runId = none) :
    ((ownedRun tenantId runId >>= k) s).2 = [] := by
  have hrun : ownedRun tenantId runId s = (.error (problem 404 "not_found"), []) := by
    unfold ownedRun
    rw [read_bind, h]
    rfl
  rw [bind_eq, hrun]

/-- A program of one run that does no work on it. -/
theorem requests_of_does {runId : ℕ} {p : Prog α} (hw : ¬ lw.works) (hnone : s.runs.get runId = none → (p s).2 = [])
    (hd : ∀ d, s.runs.get runId = some d → Does lw runId p d fun _ _ => True)
    (hidle : ∀ d, s.runs.get runId = some d → Does .idle runId p d fun _ _ => True) : Requests lw p s := by
  cases hrun : s.runs.get runId with
  | none => exact requests_of_nil (hnone hrun)
  | some d =>
    have hlawful := (hd d hrun s hrun fun h => absurd h hw).1.mono fun _ _ hx => hx.1
    have hkeeps := (hidle d hrun s hrun False.elim).1.mono fun _ _ hx => hx.1
    exact ⟨hlawful, keeps_of_writes hkeeps id id id⟩

theorem requests_answer (hs : s.Sound) (hw : ¬ lw.works) (hcloses : lw.closes) (hanswers : lw.answers) (r : Readings)
    (tenantId : String) (runId : ℕ) (request : AnswerRequest) : Requests lw (answer r tenantId runId request) s :=
  requests_of_does hw (ownedRun_bind_none _) (fun d hd => does_answer (hs.runs runId d hd).1 hcloses hanswers r tenantId request)
    fun d hd => does_answer (hs.runs runId d hd).1 trivial trivial r tenantId request

theorem requests_control (hpaired : ∀ runId d, s.runs.get runId = some d → lw.torn ∨ d.Paired) (hw : ¬ lw.works)
    (hc : lw.commands) (r : Readings) (tenantId : String) (runId : ℕ) (c : Control) (revision : Option ℕ)
    (hcloses : c = .cancel → lw.closes) (hg : c = .cancel → ∀ d, s.runs.get runId = some d → d.Cancelable lw tenantId revision) :
    Requests lw (control r tenantId runId c revision) s := by
  refine requests_of_does hw (ownedRun_bind_none _) (fun d hd => ?_) fun d hd => ?_
  · refine does_control (hpaired runId d hd) hc hcloses r tenantId fun hcancel => ?_
    subst hcancel
    exact hg rfl d hd
  · exact does_control (.inl trivial) trivial (fun _ => trivial) r tenantId fun _ _ _ _ => ⟨.inl trivial, .inl trivial⟩

theorem runs_of_about {x : Write} {runId id : ℕ} (hx : x.about runId) (hid : id ≠ runId) :
    (s.apply x).runs.get id = s.runs.get id := by
  cases x with
  | run => cases hx
  | on runId' c drawsId =>
    have hrun : runId' = runId := of_decide_eq_true hx
    simp only [World.apply, get_modifyKey]
    rw [if_neg (hrun ▸ hid)]
  | _ => rfl

theorem ownedRun_eq_ok {tenantId : String} {runId : ℕ} {d : RunData} (h : (ownedRun tenantId runId s).1 = .ok d) :
    s.runs.get runId = some d := by
  have h : owned (fun d : RunData => d.run.tenantId) tenantId (s.runs.get runId) = .ok d := h
  unfold owned at h
  split at h
  · split at h
    · cases h; assumption
    · cases h
  · cases h

/-- A program that may write nothing writes nothing. -/
theorem nil_of_writes {p : Prog α} (h : Writes (fun _ _ => False) p s) : (p s).2 = [] := by
  unfold Writes at h
  cases hl : (p s).2 with
  | nil => rfl
  | cons x l =>
    rw [hl] at h
    exact h.1.elim

/-- A decision that a run does not wait for does nothing. -/
theorem decide_nil {runId : ℕ} (now : Jobs.Time) (tenantId : String) (approvalId evidenceVersion : ℕ)
    (decision : Decision) (human : Except Problem Unit) (h : ∀ d, s.runs.get runId = some d → d.run.status ≠ .waitingApproval) :
    ((decide now tenantId runId approvalId evidenceVersion decision human) s).2 = [] := by
  refine nil_of_writes (writes_bind trivial fun d hd => ?_)
  cases d.approvals.find? (·.approvalId = approvalId) with
  | none => exact writes_raise _
  | some approval =>
    refine writes_bind (writes_check _) fun _ _ => writes_bind (writes_check _) fun u hu => ?_
    have hu : require (approval.status = .opened ∧ d.run.status = .waitingApproval) 409 "approval_not_open" = .ok u := hu
    exact absurd (require_eq_ok hu).2 (h d (ownedRun_eq_ok hd))

/-- A decision only touches a run that waits for it. -/
theorem requests_decide (hs : s.Sound) (hpaired : ∀ runId d, s.runs.get runId = some d → lw.torn ∨ d.Paired)
    (hw : ¬ lw.works) (ha : lw.approves) (now : Jobs.Time) (tenantId : String) (runId approvalId evidenceVersion : ℕ)
    (decision : Decision) (human : Except Problem Unit)
    (hg : ∀ d, s.runs.get runId = some d → d.Decides now tenantId approvalId evidenceVersion human → d.result = none →
      lw.unsettled ∨ d.Settled) :
    Requests lw (decide now tenantId runId approvalId evidenceVersion decision human) s ∧
      s.Holds ((decide now tenantId runId approvalId evidenceVersion decision human).final s) := by
  by_cases hwait : ∃ d, s.runs.get runId = some d ∧ d.run.status = .waitingApproval
  · obtain ⟨d, hd, hwait⟩ := hwait
    have hdoes := (does_decide (hs.runs runId d hd).1 (hpaired runId d hd) (fun _ => ha) now tenantId approvalId
      evidenceVersion decision human (hg d hd) s hd fun h => absurd h hw).1
    have hothers : ∀ id, id ≠ runId →
        ((decide now tenantId runId approvalId evidenceVersion decision human).final s).runs.get id = s.runs.get id :=
      hdoes.final (P := fun u => ∀ id, id ≠ runId → u.runs.get id = s.runs.get id)
        (fun _ _ h hx id hid => (runs_of_about hx.2 hid).trans (h id hid)) fun _ _ => rfl
    have hlawful : Writes (World.Lawful lw) _ s := hdoes.mono fun _ _ hx => hx.1
    have hstages := hlawful.final (P := fun u => ∃ d', u.runs.get runId = some d' ∧ d.stages <+: d'.stages)
      (fun _ _ ⟨d', hd', h⟩ hx => by
        obtain ⟨d'', hd'', h'⟩ := run_apply hx hd'
        exact ⟨d'', hd'', h.trans h'⟩) ⟨d, hd, List.prefix_rfl⟩
    have hrows := hlawful.final (P := fun u => ∀ id, (s.jobs.lookup id).isSome → (u.jobs.lookup id).isSome)
      (fun _ x h _ id hid => row_apply x (h id hid)) fun _ h => h
    refine ⟨⟨hlawful, fun id d₁ hd₁ => ?_, hrows⟩, fun id d₁ hd₁ hb => ?_⟩
    · by_cases hid : id = runId
      · subst hid
        cases hd.symm.trans hd₁
        obtain ⟨d', hd', hpre⟩ := hstages
        exact ⟨d', hd', hpre, fun hb => absurd hwait hb.waits, fun ht => by rw [hwait] at ht; cases ht⟩
      · exact ⟨d₁, (hothers id hid).trans hd₁, .refl d₁⟩
    · have hid : id ≠ runId := by
        rintro rfl
        cases hd.symm.trans hd₁
        exact hb.waits hwait
      exact ⟨d₁.artifacts, (hothers id hid).trans hd₁⟩
  · have hnil := decide_nil (s := s) now tenantId approvalId evidenceVersion decision human
      fun d hd h => hwait ⟨d, hd, h⟩
    refine ⟨requests_of_nil hnil, .of_eq ?_⟩
    rw [final, hnil]
    rfl

/-! ### Jobs -/

theorem writes_onJobs {r : Readings} {op : Jobs.Op ℕ} (h : s.Permits lw op) : Writes (World.Lawful lw) (onJobs r op) s := by
  refine writes_read_bind ?_
  cases (op.apply s.jobs r).2 with
  | ok reply => exact writes_bind (writes_write h) fun _ _ => writes_pure _
  | error fault => exact writes_raise _

theorem runs_onJobs (r : Readings) (op : Jobs.Op ℕ) (s : World) : ((onJobs r op).final s).runs = s.runs := by
  unfold final onJobs
  rw [read_bind]
  cases (op.apply s.jobs r).2 <;> rfl

theorem createExecutionJob_final (r : Readings) (runId : ℕ) (workflowStep : String) (fields : Store.Fields) (s : World) :
    (createExecutionJob r runId workflowStep fields).final s =
      (onJobs r (.create (fun id => (s.runs.get id).isSome) runId workflowStep fields 5 0)).final s := by
  unfold createExecutionJob final
  rw [read_bind, bind_eq]
  cases onJobs r (.create (fun id => (s.runs.get id).isSome) runId workflowStep fields 5 0) s with
  | mk result l =>
    cases result with
    | ok reply => simp only [pure_eq, List.append_nil]
    | error f => rfl

theorem writes_createExecutionJob {r : Readings} {runId : ℕ} {workflowStep : String} {fields : Store.Fields}
    (h : ¬ Trains workflowStep) :
    Writes (World.Lawful lw) (createExecutionJob r runId workflowStep fields) s :=
  writes_read_bind (writes_bind (writes_onJobs ⟨fun _ => rfl, h⟩) fun _ _ => writes_pure _)

theorem writes_newId : Writes (World.Lawful lw) newId s :=
  writes_read_bind (writes_bind (writes_write trivial) fun _ _ => writes_pure _)

/-- A program whose records are lawful, and would be without any allowance for work. -/
theorem requests_of_writes {p : Prog α} (h : Writes (World.Lawful lw) p s) (hidle : Writes (World.Lawful .idle) p s) :
    Requests lw p s := ⟨h, keeps_of_writes hidle id id id⟩

/-- A new run takes an id that no run has. -/
theorem writes_createRun (hs : s.Sound) (r : Readings) (tenantId : String) (request : RunRequest)
    (admitted : Except Problem Unit) (hcreates : lw.creates request tenantId) :
    Writes (World.Lawful lw) (createRun r tenantId request admitted) s := by
  refine writes_bind writes_read fun w _ => writes_bind (writes_check _) fun version _ => ?_
  refine writes_bind (writes_check _) fun _ _ => writes_bind (writes_check _) fun _ _ => ?_
  refine writes_bind writes_newId fun runId hid => ?_
  cases hid
  refine writes_bind (writes_write ⟨?_, le_rfl, request, tenantId, hcreates, rfl⟩) fun _ _ => ?_
  · cases hrun : s.runs.get (s.ids + 1) with
    | none => exact hrun
    | some d => exact absurd (hs.runs _ d hrun).2 (Nat.not_succ_le_self _)
  · exact writes_createExecutionJob (by simp [Trains])

/-- The repair creates the jobs of runs that have never had one. -/
theorem writes_repairJobs (r : Readings) (runs : List (ℕ × RunData)) (hs : s.Sound) (hruns : ∀ p ∈ runs, p ∈ s.runs) :
    Writes (World.Lawful lw) (repairJobs r runs) s := by
  induction runs generalizing s with
  | nil => exact writes_pure _
  | cons p rest ih =>
    obtain ⟨runId, d⟩ := p
    refine writes_read_bind ?_
    have hmem : (runId, d) ∈ s.runs := hruns _ List.mem_cons_self
    have hrest : ∀ p ∈ rest, p ∈ s.runs := fun p hp => hruns p (List.mem_cons_of_mem _ hp)
    split
    · exact writes_bind (writes_pure ()) fun _ _ => ih hs hrest
    · rename_i hneeds
      have hrow : s.jobs.lookup runId = none := by simpa using fun h => hneeds (.inr h)
      have hcreate : Writes (World.Lawful lw) (createExecutionJob r runId d.run.executionStep []) s :=
        writes_createExecutionJob (hs.fresh (runId, d) hmem hrow)
      refine writes_bind hcreate fun _ _ => ih (hcreate.final (fun _ _ h hx => world_sound_apply h hx) hs) ?_
      rwa [createExecutionJob_final, runs_onJobs]

/-- A chore that cancels no run. -/
theorem aside_continueDeletion (r : Readings) (ok : Bool) (task : DeletionTask)
    (h : ∀ runId rest, task.chores ≠ .cancel runId :: rest) : Aside (continueDeletion r ok task) := by
  have hset : ∀ status : DeletionStatus, Aside (do
      write (.deletionSet task.deletionId status)
      pure (none : Option DeletionTask)) := fun status => always_bind (always_write rfl) fun _ => always_pure _
  unfold continueDeletion
  cases hchores : task.chores with
  | nil => exact hset .completed
  | cons chore rest =>
    have hperform : Aside (chore.perform r task.tenantId ok) :=
      aside_perform r task.tenantId ok fun runId hcancel => h runId rest (hcancel ▸ hchores)
    refine always_bind (m := (chore.perform r task.tenantId ok).attempt) hperform fun result => ?_
    cases result with
    | ok u => exact always_pure _
    | error e => exact hset .failed

/-- A deletion works through its chores, of which only a cancel needs more. -/
theorem requests_continueDeletion (hpaired : ∀ runId d, s.runs.get runId = some d → lw.torn ∨ d.Paired)
    (hw : ¬ lw.works) (hc : lw.commands) (hcloses : lw.closes) (r : Readings) (ok : Bool) (task : DeletionTask)
    (hg : ∀ runId rest, task.chores = .cancel runId :: rest → ∀ d, s.runs.get runId = some d →
      d.Cancelable lw task.tenantId none) :
    Requests lw (continueDeletion r ok task) s := by
  by_cases hcancel : ∃ runId rest, task.chores = .cancel runId :: rest
  · obtain ⟨runId, rest, hchores⟩ := hcancel
    have hcontrol : Requests lw (control r task.tenantId runId .cancel none) s :=
      requests_control hpaired hw hc r _ runId .cancel none (fun _ => hcloses) fun _ => hg runId rest hchores
    unfold continueDeletion
    rw [hchores]
    refine requests_bind (m := (control r task.tenantId runId .cancel none).attempt)
      ⟨hcontrol.lawful, hcontrol.keeps⟩ fun result _ => ?_
    cases result with
    | ok u => exact requests_of_nil rfl
    | error e => exact (requests_aside (always_bind (always_write rfl) fun _ => always_pure _) hw _).1
  · exact (requests_aside (aside_continueDeletion r ok task fun runId rest h => hcancel ⟨runId, rest, h⟩) hw s).1

end AutomlApi.Workflow
