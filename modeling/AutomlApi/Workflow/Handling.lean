import AutomlApi.Workflow.Publishing

/-! How the handler, the worker around it and the requests keep the laws of their run. -/

namespace AutomlApi.Workflow

open Durable
open Jobs (Job Readings)

variable {lw : Leeway} {runId : ℕ} {d d' : RunData} {stale : Prop}

/-! ### Where the handler may be -/

/-- What the run must be like when the handler has this to do. -/
def Entry.Fits (d : RunData) : Entry → Prop
  | .profiled _ => True
  | .trained _ => d.run.status = .terminal ∨ .train ∈ d.stages
  | _ => .profile ∈ d.stages

/-- What the run must be like where the handler is. -/
def Place.Fits (d : RunData) : Place → Prop
  | .fresh | .profiling => True
  | .queueing entry => entry.Fits d
  | .training => .profile ∈ d.stages
  | .publishing p => p.Fits d ∧ (d.run.status ≠ .terminal ∧ d.run.status ≠ .paused) ∧ .train ∈ d.stages

/-- The job goes on at a step that the run has come to. -/
def GoesOn (d : RunData) : Worker.Outcome → Prop
  | .checkpoint result => Trains result.nextStep → .profile ∈ d.stages
  | _ => True

/-- What a turn of the handler leaves. -/
def Turn.Fits (d : RunData) : Turn → Prop
  | .yields place => place.Fits d
  | .returns outcome => GoesOn d outcome

theorem does_checkpoint {nextStep : String} (waiting : Bool) (fields : Store.Fields) {Q : Turn → RunData → Prop}
    (h : ∀ result : Worker.CheckpointResult, result.nextStep = nextStep → Q (.returns (.checkpoint result)) d) :
    Does lw runId (checkpoint nextStep waiting fields) d Q := by
  unfold checkpoint
  split
  · exact does_raise _
  · exact does_pure (h _ rfl)

theorem does_complete {Q : Turn → RunData → Prop} (h : Q (.returns .complete) d) : Does lw runId complete d Q :=
  does_pure h

theorem does_datasetPath (run : Run) {Q : Unit → RunData → Prop} (h : Q () d) :
    Does lw runId (datasetPath run) d Q := by
  refine does_read_bind fun w _ => ?_
  cases w.versions.get run.datasetVersionId with
  | none => exact does_raise _
  | some version =>
    dsimp only
    split
    · exact does_raise _
    · split
      · exact does_pure h
      · exact does_raise _

/-- The handler only starts to work on a run that is queued or running. -/
theorem does_startHandler {job : Job ℕ} (hjob : job.runId = runId) (hstep : Trains job.workflowStep → .profile ∈ d.stages) :
    Does lw runId (startHandler job) d fun turn d' => d' = d ∧ turn.Fits d ∧
      ∀ place, turn = .yields place → d.run.status = .queued ∨ d.run.status = .running := by
  subst hjob
  refine does_read_bind fun w hw => ?_
  rw [hw]
  have hwork : d.run.status = .queued ∨ d.run.status = .running → Does lw job.runId (
      if job.workflowStep = "PROFILE" then do
        datasetPath d.run
        pure (Turn.yields .profiling)
      else if job.workflowStep = "RESOLVE_TASK" then pure (Turn.yields (.queueing .resolve))
      else if job.workflowStep = "TRAIN" then do
        datasetPath d.run
        pure (Turn.yields (.queueing .train))
      else raise (.runtime "RuntimeError")) d fun turn d' => d' = d ∧ turn.Fits d ∧
        ∀ place, turn = .yields place → d.run.status = .queued ∨ d.run.status = .running := by
    intro hs
    split
    · exact does_bind (does_datasetPath _ (does_pure ⟨rfl, trivial, fun _ _ => hs⟩))
    · split
      · rename_i hresolve
        exact does_pure ⟨rfl, hstep (.inl hresolve), fun _ _ => hs⟩
      · split
        · rename_i htrain
          exact does_bind (does_datasetPath _ (does_pure ⟨rfl, hstep (.inr htrain), fun _ _ => hs⟩))
        · exact does_raise _
  dsimp only
  cases hs : d.run.status with
  | terminal | waitingApproval => exact does_complete ⟨rfl, trivial, fun _ h => by cases h⟩
  | paused | waitingUser =>
    exact does_checkpoint _ _ fun result hr => ⟨rfl, fun ht => hstep (hr ▸ ht), fun _ h => by cases h⟩
  | queued => rw [hs] at hwork; exact hwork (.inl rfl)
  | running => rw [hs] at hwork; exact hwork (.inr rfl)

/-- What a run is when it has been asked something. -/
structure Poses (d d' : RunData) (questions : List Question) : Prop where
  stages : d.stages <+: d'.stages
  status : d'.run.status = .waitingUser
  inputs : d'.run.resolvedInputs = d.run.resolvedInputs
  columns : d'.run.profileColumns = d.run.profileColumns
  result : d'.result = d.result
  packet : ∃ p ∈ d'.packets, p.status = .opened ∧ p.questions = questions

/-- The run waits for an answer, and its stages are as they were. -/
theorem does_requestDecision (hw : Working lw d) (hworks : lw.works) (hquestions : lw.questions) (run : Run) (questions : List Question) :
    Does lw runId (requestDecision runId run questions) d fun _ d' => Poses d d' questions := by
  refine does_bind (does_newId fun packetId => does_bind (does_newId fun waitSetId => ?_))
  have hasks : Lawful lw d (.run (asking packetId) true) :=
    .works hworks ⟨⟨_, rfl, by simp, by simp⟩, rfl, rfl, rfl⟩ hw.live hw.unpaused hw.unsealed hw.quiet
  let d₁ : RunData := d.apply (.run (asking packetId) true)
  have hs₁ : Sound d₁ := sound_apply hw.sound hasks
  refine does_bind (does_updateRun (fun _ => hasks) ?_)
  let p : DecisionPacket := ⟨packetId, waitSetId, 1, .opened, questions⟩
  have hpacket : (∀ q ∈ d₁.packets, q.decisionPacketId ≠ packetId) → Lawful lw d₁ (.packet p) := fun hnew =>
    .asks hquestions rfl hw.quiet hnew
  refine does_bind (does_insert hpacket fun hnew => ?_)
  let d₂ : RunData := d₁.apply (.packet p)
  have hs₂ : Sound d₂ := sound_apply hs₁ (hpacket hnew)
  have hemits : ∀ {payload : Payload} {revision : ℕ} {d : RunData}, payload.stage = none → payload.output = none →
      revision = d.run.runRevision → lw.torn ∨ d.Paired → Lawful lw d (.event payload revision) :=
    fun hs ho hr hp => .emits hs ho (.inr hr) hp
  refine does_bind ((does_emit (hemits (d := d₂) rfl rfl rfl hw.paired)).mono ?_)
  rintro run₃ d₃ ⟨rfl, rfl⟩
  have hp₃ : lw.torn ∨ (d₂.append (.phaseChanged .plan .waitingUser) d₂.run.runRevision).Paired :=
    paired_append rfl _ hw.paired
  refine does_bind ((does_emit (hemits rfl rfl rfl hp₃)).mono ?_)
  rintro run₄ d₄ ⟨rfl, rfl⟩
  refine does_pure ⟨?_, rfl, rfl, rfl, rfl, p, List.mem_append_right _ (List.mem_singleton.mpr rfl), rfl, rfl⟩
  rw [stages_append, stages_append]
  exact (List.prefix_append _ _).trans (List.prefix_append _ _)

/-! ### The steps of the handler -/

/-- A read of the data of the run, as the sections of the handler begin. -/
theorem does_read_run {Q : Turn → RunData → Prop} {k : RunData → Prog Turn} (h : Does lw runId (k d) d Q) :
    Does lw runId (do
      let w ← read
      match w.runs.get runId with
      | none => complete
      | some d => k d) d Q := by
  refine does_read_bind fun w hw => ?_
  rw [hw]
  exact h

/-- A profile that has been read is what the run has from then on. -/
theorem does_profileColumns (hw : Working lw d) (hworks : lw.works) (hprofiles : lw.profiles) (columns : List String) :
    Does lw runId (updateRun runId { profileColumns := some columns, executionStep := some "RESOLVE_TASK" } none false) d
      fun run' d' => Working lw d' ∧ d'.stages = d.stages ∧ d'.result = d.result ∧ run' = d'.run ∧
        d'.run.profileColumns = some columns := by
  have hc : Lawful lw d (.run { profileColumns := some columns, executionStep := some "RESOLVE_TASK" } false) :=
    .notes rfl (.inl hworks) rfl (.inl hprofiles)
  refine does_updateRun (fun _ => hc) ⟨?_, rfl, rfl, rfl, rfl⟩
  exact ⟨⟨sound_apply hw.sound hc, hw.paired, hw.adds⟩, hw.live, hw.unpaused, hw.unsealed, hw.quiet⟩

theorem does_profiled (hw : d.run.status ≠ .terminal → Working lw d) (hworks : lw.works)
    (hquestions : lw.questions) (hprofiles : lw.profiles)
    (hfree : d.run.status ≠ .terminal → lw.twice ∨ ∀ o ∈ d.outputs, o.type ≠ .dataQualityReport) (columns : List String) :
    Does lw runId (profiled runId columns) d fun turn d' => turn.Fits d' ∧ ∃ outcome, turn = .returns outcome ∧
      ∀ result, outcome = .checkpoint result → (d.result.isSome → d.run.status = .terminal) → d'.Cleared := by
  refine does_read_run ?_
  split
  · exact does_complete ⟨trivial, _, rfl, nofun⟩
  rename_i hs
  have hw := hw hs
  have hfree := hfree hs
  have hc : Lawful lw d (.run profiling false) :=
    .works hworks ⟨⟨_, rfl, by simp, by simp⟩, rfl, rfl, rfl⟩ hw.live hw.unpaused hw.unsealed hw.quiet
  have hg₁ := grows_update d profiling (.inr rfl) rfl rfl rfl
  refine does_bind (does_updateRun (fun _ => hc) ?_)
  have hw₁ := hw.grows hg₁ (hw.toOpen.grows hg₁ (sound_apply hw.sound hc) hw.paired)
  refine does_bind ((does_completeStage hw₁ (Run.current False _) False.elim (by simp) (.inl rfl)).mono ?_)
  rintro run₂ d₂ ⟨hw₂, hg₂, rfl, hingest, hout₂⟩
  refine does_bind ((does_emit_plain hw₂ (Run.current False d₂) False.elim rfl rfl).mono ?_)
  rintro run₃ d₃ ⟨hw₃, hg₃, rfl, hout₃⟩
  have hfree₃ : Free lw d₃ (.of .dataQualityReport .profile) := by
    refine hfree.imp (fun h => ⟨h, rfl⟩) fun h x hx hslot => ?_
    rw [hout₃, hout₂] at hx
    exact h x hx hslot.1
  refine does_bind ((does_commitOutput hw₃.toOpen (Run.current False d₃) False.elim hfree₃).mono ?_)
  rintro ⟨qualityOutput, run₄⟩ d₄ ⟨ho₄, hg₄, rfl, -⟩
  have hw₄ := hw₃.grows hg₄ ho₄
  refine does_bind ((does_profileColumns hw₄ hworks hprofiles columns).mono ?_)
  rintro run₅ d₅ ⟨hw₅, hstages₅, hresult₅, rfl, hcolumns₅⟩
  have hingest₅ : Phase.ingest ∈ d₅.stages := hstages₅ ▸ hg₄.stages.subset (hg₃.stages.subset hingest)
  refine does_bind ((does_completeStage hw₅ (Run.current False d₅) False.elim (by simp)
    (.inr ⟨_, hingest₅, rfl⟩)).mono ?_)
  rintro run₆ d₆ ⟨hw₆, hg₆, rfl, hprofile, -⟩
  have hcolumns₆ : d₆.run.profileColumns = some columns := hg₆.columns.trans hcolumns₅
  have hresult₆ : d₆.result = d.result :=
    hg₆.result.trans (hresult₅.trans (hg₁.trans (hg₂.trans (hg₃.trans hg₄))).result)
  have hquestions₆ : ∀ run : Run, run.resolvedInputs = d₆.run.resolvedInputs → run.profileColumns = d₆.run.profileColumns →
      run.questions = initialQuestions d₅.run columns := by
    intro run hinputs hcolumns
    simp only [Run.questions, initialQuestions, hinputs, hg₆.inputs, hcolumns, hcolumns₆, Option.getD_some]
  split
  · rename_i hempty
    have hqueued : Lawful lw d₆ (.run planQueued true) :=
      .works hworks ⟨⟨_, rfl, by simp, by simp⟩, rfl, rfl, rfl⟩ hw₆.live hw₆.unpaused hw₆.unsealed hw₆.quiet
    refine does_bind (does_updateRun (fun _ => hqueued) (does_checkpoint _ _ fun result _ => ⟨fun _ => hprofile, _, rfl, ?_⟩))
    intro _ _ _
    exact .inl (ready_iff.mpr ((hquestions₆ _ rfl rfl).trans (List.isEmpty_iff.mp hempty)))
  · refine does_bind ((does_requestDecision hw₆ hworks hquestions _ _).mono ?_)
    intro _ d₇ hposes
    refine does_checkpoint _ _ fun result _ => ⟨fun _ => hposes.stages.subset hprofile, _, rfl, fun _ _ hclosed => ?_⟩
    have hnone : d.result = none := Option.not_isSome_iff_eq_none.mp fun h => hs (hclosed h)
    obtain ⟨p, hp, hopen, hasks⟩ := hposes.packet
    refine .inr (.inr ⟨.inl hposes.status, hposes.result.trans (hresult₆.trans hnone), p, hp, hopen, ?_⟩)
    exact hasks.trans (hquestions₆ _ hposes.inputs hposes.columns).symm

theorem does_resolveTask (hw : d.run.status ≠ .terminal → Working lw d) (hworks : lw.works)
    (hprofile : .profile ∈ d.stages) :
    Does lw runId (resolveTask runId) d fun turn d' => turn.Fits d' ∧ ∃ outcome, turn = .returns outcome := by
  refine does_read_run ?_
  split
  · exact does_complete ⟨trivial, _, rfl⟩
  rename_i hs
  have hw := hw hs
  have hc : Lawful lw d (.run resolved false) :=
    .works hworks ⟨⟨_, rfl, by simp, by simp⟩, rfl, rfl, rfl⟩ hw.live hw.unpaused hw.unsealed hw.quiet
  refine does_bind (does_updateRun (fun _ => hc) ?_)
  cases d.run.pendingCommandId with
  | none => exact does_checkpoint _ _ fun result _ => ⟨fun _ => hprofile, _, rfl⟩
  | some commandId =>
    exact does_bind (does_change .settles (does_checkpoint _ _ fun result _ => ⟨fun _ => hprofile, _, rfl⟩))

theorem does_startTraining (hw : d.run.status ≠ .terminal → d.run.status ≠ .paused → Working lw d)
    (hworks : lw.works) (hprofile : .profile ∈ d.stages) :
    Does lw runId (startTraining runId) d fun turn d' => turn.Fits d' ∧
      ∀ place, turn = .yields place → place = .training ∧ Grows d d' ∧ d'.run.status = .running := by
  refine does_read_run ?_
  split
  · exact does_complete ⟨trivial, fun _ h => by cases h⟩
  rename_i hs
  split
  · exact does_checkpoint _ _ fun result _ => ⟨fun _ => hprofile, fun _ h => by cases h⟩
  · rename_i hp
    have hw := hw hs hp
    have hc : Lawful lw d (.run (advanced .plan 42) false) :=
      .works hworks ⟨⟨_, rfl, by simp, by simp⟩, rfl, rfl, rfl⟩ hw.live hw.unpaused hw.unsealed hw.quiet
    refine does_bind (does_updateRun (fun _ => hc) (does_pure ⟨hprofile, fun place h => ?_⟩))
    cases h
    exact ⟨rfl, grows_update d _ (.inr rfl) rfl rfl rfl, rfl⟩

theorem does_positiveClassRequired (hw : Working lw d) (hworks : lw.works) (hquestions : lw.questions)
    (hprofile : .profile ∈ d.stages) (classes : List Store.Value) :
    Does lw runId (positiveClassRequired runId classes) d fun turn d' =>
      turn.Fits d' ∧ ∃ outcome, turn = .returns outcome := by
  refine does_bind (does_find (does_bind ((does_requestDecision hw hworks hquestions _ _).mono ?_)))
  intro _ d₁ hposes
  exact does_checkpoint _ _ fun result _ => ⟨fun _ => hposes.stages.subset hprofile, _, rfl⟩

/-- What a program may count on that may end the run. -/
structure Endable (lw : Leeway) (d : RunData) : Prop where
  opened : Open lw d
  ending : d.result = none → Closable lw d

theorem does_failRun (h : Endable lw d) {run : Run} (hrun : run.Current False d) (code : String)
    {Q : Unit → RunData → Prop} (hQ : ∀ d', Q () d') : Does lw runId (failRun runId run code) d Q := by
  refine does_bind ((does_ensureOutput (o := .of .failureReport run.phase) h.opened hrun False.elim nofun).mono ?_)
  rintro ⟨o, run₁⟩ d₁ ⟨ho₁, hg₁, -⟩
  refine does_bind (does_finalizeRunWithResult (fun hopen id => ?_) fun _ _ => does_pure (hQ _))
  have hopen' : d.result = none := hg₁.result ▸ hopen
  have hclosable := (h.ending hopen').grows hg₁
  exact .ends hopen (.fails code) hclosable.clear hclosable.settled ho₁.paired

theorem does_engineFailed (h : Endable lw d) (code : String) :
    Does lw runId (engineFailed runId code) d fun turn d' => turn.Fits d' ∧ ∃ outcome, turn = .returns outcome := by
  refine does_read_run (does_bind ?_)
  exact does_failRun h (Run.current False d) code fun _ => does_complete ⟨trivial, _, rfl⟩

section Worker

variable {w : Worker.LocalExecutionWorker} {r : Readings} {job : Job ℕ} {result : TrainingResult}

/-- What a turn of `_publish_result` is for the handler. -/
theorem does_published {pending : Option PendingResult} (hw : Waits result d pending d')
    (hs : d.run.status ≠ .terminal) (hp : d.run.status ≠ .paused) (htrain : .train ∈ d.stages) :
    Does lw runId (published pending) d' fun turn d'' => d'' = d' ∧ turn.Fits d' ∧
      ∀ place, turn = .yields place → ∃ p, place = .publishing p ∧ Grows d d' := by
  cases pending with
  | none => exact does_complete ⟨rfl, trivial, fun _ h => by cases h⟩
  | some p =>
    obtain ⟨hfits, -, hg⟩ := hw p rfl
    have hlive : ∀ {status : RunStatus}, status ≠ .running → d.run.status ≠ status → d'.run.status ≠ status :=
      fun hr h => (hg.live hr (.inr h) : False ∨ _).resolve_left False.elim
    refine does_pure ⟨rfl, ⟨hfits, ⟨hlive nofun hs, hlive nofun hp⟩, hg.stages.subset htrain⟩, fun _ h => ?_⟩
    cases h
    exact ⟨p, rfl, hg⟩

theorem does_trained (hjob : job.runId = runId) (h : d.run.status ≠ .terminal → d.run.status ≠ .paused →
      Publishable lw result d) (hprofile : d.run.status ≠ .terminal → .profile ∈ d.stages) :
    Does lw runId (trained w r job result) d fun turn d' => turn.Fits d' ∧
      ∀ place, turn = .yields place → ∃ p, place = .publishing p ∧ Grows d d' := by
  subst hjob
  refine does_bind (does_onJobs (fun _ _ => rfl) (by simp [Write.about, Jobs.Op.presents, Jobs.Job.claim]) ?_)
  intro _
  refine does_read_run ?_
  split
  · exact does_complete ⟨trivial, fun _ h => by cases h⟩
  rename_i hs
  split
  · exact does_checkpoint _ _ fun result _ => ⟨fun _ => hprofile hs, fun _ h => by cases h⟩
  rename_i hp
  have hpub := h hs hp
  refine does_bind ((does_publishResult hpub (Run.current False d)).mono ?_)
  intro pending d₁ hwaits
  refine (does_published hwaits hs hp hpub.trained).mono ?_
  rintro turn d₂ ⟨rfl, hfits, hplace⟩
  exact ⟨hfits, hplace⟩

/-! ### The worker around the handler -/

theorem does_handleDeadJob (h : d.run.status ≠ .terminal → Endable lw d) :
    Does lw runId (handleDeadJob runId) d fun _ _ => True := by
  refine does_read_bind fun w hw => ?_
  rw [hw]
  dsimp only
  split
  · exact does_pure trivial
  · rename_i hs
    exact does_failRun (h hs) (Run.current False d) _ fun _ => trivial

theorem does_retryJob (hjob : job.runId = runId) (h : d.run.status ≠ .terminal → Endable lw d) (delaySeconds : ℚ)
    (error : String) : Does lw runId (retryJob r job delaySeconds error) d fun _ _ => True := by
  subst hjob
  refine does_bind (does_onJobs (fun _ _ => rfl) (by simp [Write.about, Jobs.Op.presents, Jobs.Job.claim]) ?_)
  intro reply
  cases reply with
  | none => exact does_pure trivial
  | some updated =>
    dsimp only
    split
    · exact does_handleDeadJob h
    · exact does_pure trivial

end Worker

/-! ### Requests -/

theorem does_ownedRun (tenantId : String) {Q : RunData → RunData → Prop} (h : d.run.tenantId = tenantId → Q d d) :
    Does lw runId (ownedRun tenantId runId) d Q := by
  refine does_read_bind fun w hw => does_check fun a ha => ?_
  rw [hw] at ha
  unfold owned at ha
  dsimp only at ha
  split at ha
  · rename_i htenant
    cases ha
    exact h htenant
  · cases ha

theorem does_createCommand {type : CommandType} {status : CommandStatus} {Q : ℕ → RunData → Prop}
    (hlive : d.run.status ≠ .terminal) (hc : lw.commands ∨ status ≠ .running)
    (h : ∀ id, Q id (d.apply (.command ⟨id, type, status, none⟩))) :
    Does lw runId (createCommand runId type status) d Q :=
  does_bind (does_changeWithId (fun _ => .issues hlive hc) fun id => does_pure (h id))

/-- After the loop of a cancel no question is open. -/
theorem does_supersedePackets (hcloses : lw.closes) (hlive : d.run.status ≠ .terminal) (packets : List DecisionPacket)
    (hall : ∀ q ∈ d.packets, q.status = .opened → ∃ p ∈ packets, p.status = .opened ∧
      p.decisionPacketId = q.decisionPacketId) :
    Does lw runId (supersedePackets runId packets) d fun _ d' =>
      ∃ packets', d' = { d with packets := packets' } ∧ d'.Quiet := by
  induction packets generalizing d with
  | nil =>
    refine does_pure ⟨d.packets, rfl, fun q hq hopen => ?_⟩
    obtain ⟨p, hp, -⟩ := hall q hq hopen
    exact List.not_mem_nil hp
  | cons p rest ih =>
    unfold supersedePackets
    split
    · rename_i hp
      refine does_bind (does_change (.closes hcloses (by simp) hlive) ?_)
      refine Does.mono (ih (d := d.apply _) hlive ?_) fun _ d' h => h.imp fun _ hpackets => hpackets
      intro q hq hopen
      obtain ⟨q', hq', rfl⟩ := List.mem_map.mp hq
      split at hopen
      · cases hopen
      · rename_i hne
        rw [if_neg hne]
        obtain ⟨p', hp', hopen', hid⟩ := hall q' hq' hopen
        rcases List.mem_cons.mp hp' with rfl | hp'
        · exact absurd hid.symm hne
        · exact ⟨p', hp', hopen', hid⟩
    · rename_i hp
      refine ih hlive fun q hq hopen => ?_
      obtain ⟨p', hp', hopen', hid⟩ := hall q hq hopen
      rcases List.mem_cons.mp hp' with rfl | hp'
      · exact absurd hopen' hp
      · exact ⟨p', hp', hopen', hid⟩

theorem does_switchStatus (hcommands : lw.commands) (hpaired : lw.torn ∨ d.Paired) (hlive : d.run.status ≠ .terminal)
    (run : Run) {status : RunStatus} {actions : List CommandType} (ht : status ≠ .terminal) (ha : status ≠ .waitingApproval)
    (hquiet : status = .waitingUser ∨ status = .paused ∨ d.Quiet) :
    Does lw runId (switchStatus runId run status actions) d fun _ _ => True := by
  refine does_bind (does_updateRun (fun _ => .switches hcommands ht ha hlive hquiet) ?_)
  have hc : ∀ payload : Payload, payload.stage = none → payload.output = none →
      Lawful lw (d.apply _) (.event payload (d.apply (.run (switched run status actions) true)).run.runRevision) :=
    fun payload hs ho => .emits hs ho (.inr rfl) hpaired
  exact (does_emit (hc _ rfl rfl)).mono fun _ _ _ => trivial

theorem require_eq_ok {ok : Prop} [Decidable ok] {status : ℕ} {code : String} {u : Unit}
    (h : require ok status code = .ok u) : ok := by
  unfold require at h
  split at h
  · assumption
  · cases h

/-- What a control command has found of the run. -/
structure Control.Passes (c : Control) (run : Run) (revision : Option ℕ) : Prop where
  revision : ∀ expected ∈ revision, run.runRevision = expected
  live : run.status ≠ .terminal
  available : c.command ∈ run.availableActions
  resume : c = .resume → run.status = .paused
  pause : c = .pause → run.status ≠ .paused

theorem Control.passes {c : Control} {run : Run} {revision : Option ℕ} {u : Unit} (h : c.check run revision = .ok u) :
    c.Passes run revision := by
  have hbind : ∀ {α β : Type} {x : Except Fault α} {k : α → Except Fault β} {b : β}, (x >>= k) = .ok b →
      ∃ a, x = .ok a ∧ k a = .ok b := fun {α β x k b} h => by
    cases x with
    | error e => cases h
    | ok a => exact ⟨a, rfl, h⟩
  obtain ⟨_, h1, h⟩ := hbind h
  obtain ⟨_, h2, h⟩ := hbind h
  obtain ⟨_, h3, h⟩ := hbind h
  obtain ⟨_, h4, h⟩ := hbind h
  exact ⟨require_eq_ok h1, require_eq_ok h2, require_eq_ok h3, require_eq_ok h4, require_eq_ok h⟩

/-- The wake after a resume or a cancel. -/
theorem does_wakeUnlessTerminal (r : Readings) : Does lw runId (wakeUnlessTerminal r runId) d fun _ _ => True := by
  refine does_read_bind fun w _ => ?_
  cases w.jobs.lookup runId with
  | none => exact does_pure trivial
  | some job =>
    dsimp only
    split
    · exact does_pure trivial
    · exact does_bind (does_onJobs (fun _ _ => rfl) (by simp [Write.about]) fun _ => does_pure trivial)

theorem does_control {c : Control} {revision : Option ℕ} (hpaired : lw.torn ∨ d.Paired) (hcommands : lw.commands)
    (hcloses : c = .cancel → lw.closes) (r : Readings) (tenantId : String) (hends : c = .cancel → d.run.tenantId = tenantId → c.Passes d.run revision →
      d.result = none → (lw.leaves ∨ d.Unasked) ∧ (lw.unsettled ∨ d.Settled)) :
    Does lw runId (control r tenantId runId c revision) d fun _ _ => True := by
  refine does_bind (does_ownedRun tenantId fun htenant => does_bind (does_check fun _ hcheck => ?_))
  have hpasses := Control.passes hcheck
  have hlive := hpasses.live
  refine does_bind (does_createCommand hlive (.inl hcommands) fun id => ?_)
  let d₁ : RunData := d.apply (.command ⟨id, c.command, .running, none⟩)
  have hact : Does lw runId (c.act runId d) d₁ fun _ _ => True := by
    cases c with
    | pause => exact does_switchStatus (d := d₁) hcommands hpaired hlive _ (by simp) (by simp) (.inr (.inl rfl))
    | resume =>
      simp only [Control.act]
      split
      · exact does_switchStatus (d := d₁) hcommands hpaired hlive _ (by simp) (by simp) (.inl rfl)
      · rename_i hany
        refine does_switchStatus (d := d₁) hcommands hpaired hlive _ (by simp) (by simp) (.inr (.inr ?_))
        intro p hp hopen
        exact hany (List.any_eq_true.mpr ⟨p, hp, decide_eq_true hopen⟩)
    | cancel =>
      refine does_bind ((does_supersedePackets (d := d₁) (hcloses rfl) hlive d.packets fun q hq ho => ⟨q, hq, ho, rfl⟩).mono ?_)
      rintro _ d₂ ⟨packets', rfl, hquiet⟩
      refine does_bind (does_newId fun resultId => ?_)
      refine does_finalizeRunWithResult (fun hopen _ => ?_) fun _ _ => trivial
      obtain ⟨hunasked, hsettled⟩ := hends rfl htenant hpasses hopen
      refine .ends hopen .cancels (hunasked.imp_right fun h => ⟨hquiet, h⟩) (hsettled.imp_right fun h => ?_) hpaired
      intro x hx
      rcases List.mem_append.mp hx with hx | hx
      · exact h x hx
      · rw [List.mem_singleton.mp hx]
        simp
  refine does_bind (hact.mono fun run d₂ _ => does_bind (does_change .settles ?_))
  split
  · exact does_pure trivial
  · exact does_wakeUnlessTerminal r

theorem does_answer (hsound : Sound d) (hcloses : lw.closes) (hanswers : lw.answers) (r : Readings) (tenantId : String) (request : AnswerRequest) :
    Does lw runId (answer r tenantId runId request) d fun _ _ => True := by
  refine does_bind (does_ownedRun tenantId fun _ => ?_)
  cases hfind : d.packets.find? (·.waitSetId = request.waitSetId) with
  | none => exact does_raise _
  | some packet =>
    refine does_bind (does_check fun _ _ => does_bind (does_check fun _ hopen => ?_))
    obtain ⟨hopen, hwait⟩ := require_eq_ok hopen
    refine does_bind (does_check fun _ _ => does_bind (does_check fun _ _ => does_bind (does_check fun _ _ => ?_)))
    refine does_bind (does_check fun resolved hresolved => ?_)
    have hlive : d.run.status ≠ .terminal := by rw [hwait]; simp
    refine does_bind (does_createCommand hlive (.inr nofun) fun commandId => ?_)
    refine does_bind (does_change (.closes hcloses nofun hlive) (does_bind ?_))
    refine does_updateRun (fun _ => .answers hwait ?_ ⟨_, hresolved⟩ hanswers) ?_
    · -- the answered question was the only one that was open
      intro p hp
      have hclosed := closed_updateItem (p := fun p : DecisionPacket => p.status = .opened) (fun p => by simp)
        hsound.question (List.mem_of_find?_eq_some hfind) (decide_eq_true hopen) hp
      exact of_decide_eq_false hclosed
    · exact does_bind (does_onJobs (fun _ _ => rfl) (by simp [Write.about]) fun _ => does_pure trivial)

theorem does_registerCandidate {models : List ℕ} {decision : Decision} {Q : Unit → RunData → Prop}
    (h : ∀ models', Q () { d with models := models' }) :
    Does lw runId (registerCandidate runId d.run models decision) d Q := by
  cases decision with
  | approve =>
    unfold registerCandidate
    cases d.run.pendingModelCandidate with
    | none => exact does_raise _
    | some modelId =>
      dsimp only
      split
      · exact does_pure (h d.models)
      · exact does_bind (does_insert (fun _ => .registers _) fun _ => does_pure (h _))
  | requestChanges | reject => exact does_pure (h d.models)

/-- What a decision finds that is not refused. -/
structure RunData.Decides (d : RunData) (now : Jobs.Time) (tenantId : String) (approvalId evidenceVersion : ℕ)
    (human : Except Problem Unit) : Prop where
  tenant : d.run.tenantId = tenantId
  human : human.isOk
  waits : d.run.status = .waitingApproval
  approval : ∃ approval ∈ d.approvals.find? (·.approvalId = approvalId),
    approval.status = .opened ∧ approval.evidenceVersion = evidenceVersion ∧ ¬ approval.expiresAt ≤ now

/-- A decision changes nothing but a run that waits for it. -/
theorem does_decide (hsound : Sound d) (hpaired : lw.torn ∨ d.Paired) (happroves : d.run.status = .waitingApproval → lw.approves)
    (now : Jobs.Time) (tenantId : String) (approvalId evidenceVersion : ℕ) (decision : Decision) (human : Except Problem Unit)
    (hsettled : d.Decides now tenantId approvalId evidenceVersion human → d.result = none → lw.unsettled ∨ d.Settled) :
    Does lw runId (decide now tenantId runId approvalId evidenceVersion decision human) d fun _ _ => True := by
  refine does_bind (does_ownedRun tenantId fun htenant => ?_)
  cases hfind : d.approvals.find? (·.approvalId = approvalId) with
  | none => exact does_raise _
  | some approval =>
    refine does_bind (does_check fun _ hhuman => does_bind (does_check fun _ hopen => ?_))
    obtain ⟨hopen, hwait⟩ := require_eq_ok hopen
    have hlive : d.run.status ≠ .terminal := by rw [hwait]; simp
    refine does_bind (does_check fun _ hversion => ?_)
    split
    · exact does_bind (does_change (.decides nofun hwait) (does_raise _))
    rename_i hunexpired
    have hdecides : d.Decides now tenantId approvalId evidenceVersion human := by
      refine ⟨htenant, ?_, hwait, approval, hfind, hopen, require_eq_ok hversion, hunexpired⟩
      cases human with
      | ok _ => rfl
      | error problem => cases hhuman
    have hdecided : decision.status ≠ .opened := by cases decision <;> simp [Decision.status]
    refine does_bind (does_change (.decides hdecided hwait) ?_)
    refine does_bind (does_createCommand hlive (.inr nofun) fun commandId => ?_)
    refine does_bind (does_registerCandidate (d := (d.apply _).apply _) fun models => ?_)
    refine does_bind (does_finalizeRunWithResult (fun hclosed id => ?_) fun _ _ =>
      does_bind (does_change .settles (does_pure trivial)))
    have hid : approval.approvalId = approvalId := by simpa using List.find?_some hfind
    have hclear : d.Quiet := by
      rcases hsound.asked with h | h | h | h
      · rw [hwait] at h; cases h
      · rw [hwait] at h; cases h
      · exact absurd h hlive
      · exact h
    refine .ends hclosed (.succeeds (happroves hwait) ?_) (.inr ⟨hclear, ?_⟩) ((hsettled hdecides hclosed).imp_right ?_) hpaired
    · have hsealed : ¬ d.Sealed := fun h => hlive h.1
      exact eq_take_of_prefix hsound.stages (hsound.package_notMem hsealed) (.inr ⟨_, hsound.evaluated hwait, rfl⟩)
    · -- the decided approval was the only one that was open
      intro a ha
      have hclosed := closed_updateItem (p := fun a : Approval => a.status = .opened)
        (fun a => by simpa using hdecided) hsound.approval (List.mem_of_find?_eq_some hfind) (decide_eq_true hopen)
        (hid ▸ ha)
      exact of_decide_eq_false hclosed
    · intro h x hx
      rcases List.mem_append.mp hx with hx | hx
      · exact h x hx
      · rw [List.mem_singleton.mp hx]
        simp

end AutomlApi.Workflow
