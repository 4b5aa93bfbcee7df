import AutomlApi.Worker.Survival
import AutomlApi.Workflow.Slips
import AutomlApi.Workflow.Turns

/-! The life of the process: what one step of it is, and what holds of the world and of
the tasks after any steps and any crashes. -/

namespace AutomlApi.Workflow

open Durable
open Jobs (Job Readings)

variable {lw : Leeway} {w : Worker.LocalExecutionWorker} {t : Tasks} {s s' : System} {α β : Type}

/-! ### The sections that a step may run -/

/-- The section of each action, where it can be taken. -/
inductive Tasks.Runs (w : Worker.LocalExecutionWorker) (t : Tasks) : Action → Prog Tasks → Prop
  | createDataset (tenantId : String) (hl : t.locked = false) :
      Runs w t (.createDataset tenantId) (t.request (createDataset tenantId))
  | createRun (r : Readings) (tenantId : String) (request : RunRequest) (admitted : Except Problem Unit)
      (hl : t.locked = false) :
      Runs w t (.createRun r tenantId request admitted) (t.request (createRun r tenantId request admitted))
  | answer (r : Readings) (tenantId : String) (runId : ℕ) (request : AnswerRequest) (hl : t.locked = false) :
      Runs w t (.answer r tenantId runId request) (t.request (answer r tenantId runId request))
  | control (r : Readings) (tenantId : String) (runId : ℕ) (c : Control) (revision : Option ℕ)
      (hl : t.locked = false) :
      Runs w t (.control r tenantId runId c revision) (t.request (control r tenantId runId c revision))
  | decide (now : Jobs.Time) (tenantId : String) (runId approvalId evidenceVersion : ℕ) (decision : Decision)
      (human : Except Problem Unit) :
      Runs w t (.decide now tenantId runId approvalId evidenceVersion decision human)
        (t.request (decide now tenantId runId approvalId evidenceVersion decision human))
  | startFinalize (tenantId : String) (request : FinalizeRequest) (hl : t.locked = false) :
      Runs w t (.startFinalize tenantId request) do
        let goesOn ← startFinalize tenantId request
        pure (if goesOn then { t with finalizing := some request } else t)
  | endFinalize (stored : Bool) (request : FinalizeRequest) :
      Runs w t (.endFinalize stored) do
        let _ ← ((endFinalize request stored).attempt : Prog _)
        pure { t with finalizing := none }
  | startDeletion (tenantId : String) (datasetId : ℕ) :
      Runs w t (.startDeletion tenantId datasetId) do
        let task ← startDeletion tenantId datasetId
        pure { t with deletions := t.deletions ++ [task] }
  | continueDeletion (index : ℕ) (r : Readings) (ok : Bool) (task : DeletionTask) (h : t.deletions[index]? = some task)
      (hl : ∀ runId rest, task.chores = .cancel runId :: rest → t.locked = false) :
      Runs w t (.continueDeletion index r ok) do
        match ← continueDeletion r ok task with
        | some rest => pure { t with deletions := t.deletions.set index rest }
        | none => pure { t with deletions := t.deletions.eraseIdx index }
  | boot (r : Readings) (h : t.worker = .off) :
      Runs w t (.boot r) do
        ensureExecutionJobs r
        pure { Tasks.off with worker := .idle }
  | claim (r : Readings) (h : t.worker = .idle) :
      Runs w t (.claim r) do
        match ← (onJobs r (.claim w.workerId w.leaseSeconds)).attempt with
        | .ok (some job) => pure { t with worker := .handling job .fresh }
        | .ok none => pure t
        | .error _ => pure { t with worker := .ended }
  | start (job : Job ℕ) (h : t.worker = .handling job .fresh) : Runs w t .start (t.handle job (startHandler job))
  | profileRead (job : Job ℕ) (profile : Except String (List String)) (h : t.worker = .handling job .profiling) :
      Runs w t (.profileRead profile) (pure { t with worker := match profile with
        | .ok columns => .handling job (.queueing (.profiled columns))
        | .error message => .settling job (.raised message) })
  | enter (r : Readings) (job : Job ℕ) (entry : Entry) (h : t.worker = .handling job (.queueing entry))
      (hl : t.locked = false) : Runs w t (.enter r) (t.handle job (enter w r job entry))
  | resultStored (r : Readings) (stored : Bool) (job : Job ℕ) (pending : PendingResult)
      (h : t.worker = .handling job (.publishing pending)) :
      Runs w t (.resultStored r stored) (t.handle job do
        let pending ← resumeResult r job.runId pending stored
        published pending)
  | settle (r : Readings) (job : Job ℕ) (outcome : Worker.Outcome) (h : t.worker = .settling job outcome) :
      Runs w t (.settle r) do
        match ← (settle w r job outcome).attempt with
        | .ok () => pure { t with worker := .idle }
        | .error _ => pure { t with worker := .ended }
  | heartbeat (r : Readings) (job : Job ℕ)
      (h : (∃ place, t.worker = .handling job place) ∨ ∃ outcome, t.worker = .settling job outcome) :
      Runs w t (.heartbeat r) do
        match ← (onJobs r (.renew job.claim w.leaseSeconds)).attempt with
        | .ok _ => pure t
        | .error f => pure { t with worker := if f.isFence then .ended else .settling job (.raised f.name) }
  | stopIdle (r : Readings) (h : t.worker = .idle) : Runs w t (.stop r) (pure { t with worker := .ended })
  | stop (r : Readings) (job : Job ℕ)
      (h : (∃ place, t.worker = .handling job place) ∨ ∃ outcome, t.worker = .settling job outcome) :
      Runs w t (.stop r) (t.cancelled r job)
  | callback (r : Readings) (call : StageCall) (job : Job ℕ) (stage : EngineStage)
      (h : t.thread = some ⟨job, stage, .idle⟩) (hcall : call.follows stage) :
      Runs w t (.callback r call) do
        match ← (onJobs r (.renew job.claim w.leaseSeconds)).attempt with
        | .ok _ => pure { t with thread := some ⟨job, stage, .queueing call⟩ }
        | .error f => pure { t with thread := some ⟨job, .broken f, .idle⟩ }
  | publish (job : Job ℕ) (stage : EngineStage) (call : StageCall) (h : t.thread = some ⟨job, stage, .queueing call⟩)
      (hl : t.locked = false) :
      Runs w t .publish (t.publication ⟨job, stage, .queueing call⟩ call (publishStage job.runId call))
  | splitStored (stored : Bool) (job : Job ℕ) (stage : EngineStage) (call : StageCall) (pending : PendingSplit)
      (h : t.thread = some ⟨job, stage, .storing call pending⟩) :
      Runs w t (.splitStored stored) (t.publication ⟨job, stage, .idle⟩ call do
        resumeStage job.runId pending stored
        pure none)
  | threadEnds (ending : Ending) (job : Job ℕ) (stage : EngineStage) (h : t.thread = some ⟨job, stage, .idle⟩)
      (hending : ending.follows stage) :
      Runs w t (.threadEnds ending) (pure
        { t with
          thread := none
          worker := match t.worker with
            | .handling job' .training => Tasks.wake job' stage ending
            | other => other })

theorem section_runs {a : Action} {p : Prog Tasks} (h : t.section w a = some p) : t.Runs w a p := by
  cases a with
  | createDataset tenantId =>
    simp only [Tasks.section, Option.ite_none_right_eq_some, Option.some.injEq] at h
    obtain ⟨⟨-, hl⟩, rfl⟩ := h
    exact .createDataset tenantId hl
  | createRun r tenantId request admitted =>
    simp only [Tasks.section, Option.ite_none_right_eq_some, Option.some.injEq] at h
    obtain ⟨⟨-, hl⟩, rfl⟩ := h
    exact .createRun r tenantId request admitted hl
  | answer r tenantId runId request =>
    simp only [Tasks.section, Option.ite_none_right_eq_some, Option.some.injEq] at h
    obtain ⟨⟨-, hl⟩, rfl⟩ := h
    exact .answer r tenantId runId request hl
  | control r tenantId runId c revision =>
    simp only [Tasks.section, Option.ite_none_right_eq_some, Option.some.injEq] at h
    obtain ⟨⟨-, hl⟩, rfl⟩ := h
    exact .control r tenantId runId c revision hl
  | decide now tenantId runId approvalId evidenceVersion decision human =>
    simp only [Tasks.section, Option.ite_none_right_eq_some, Option.some.injEq] at h
    obtain ⟨-, rfl⟩ := h
    exact .decide now tenantId runId approvalId evidenceVersion decision human
  | startFinalize tenantId request =>
    simp only [Tasks.section, Option.ite_none_right_eq_some, Option.some.injEq] at h
    obtain ⟨⟨-, hl⟩, rfl⟩ := h
    exact .startFinalize tenantId request hl
  | endFinalize stored =>
    obtain ⟨request, -, rfl⟩ := Option.map_eq_some_iff.mp h
    exact .endFinalize stored request
  | startDeletion tenantId datasetId =>
    simp only [Tasks.section, Option.ite_none_right_eq_some, Option.some.injEq] at h
    obtain ⟨-, rfl⟩ := h
    exact .startDeletion tenantId datasetId
  | continueDeletion index r ok =>
    obtain ⟨task, htask, h⟩ := Option.bind_eq_some_iff.mp h
    rw [Option.ite_none_left_eq_some] at h
    obtain ⟨hl, h⟩ := h
    cases h
    refine .continueDeletion index r ok task htask fun runId rest hchores => ?_
    simpa [hchores] using hl
  | boot r =>
    simp only [Tasks.section] at h
    split at h
    · rename_i hw
      cases h
      exact .boot r hw
    · cases h
  | claim r =>
    simp only [Tasks.section] at h
    split at h
    · rename_i hw
      cases h
      exact .claim r hw
    · cases h
  | start =>
    simp only [Tasks.section] at h
    split at h
    · rename_i job hw
      cases h
      exact .start job hw
    · cases h
  | profileRead profile =>
    simp only [Tasks.section] at h
    split at h
    · rename_i job columns hw
      cases h
      exact .profileRead job (.ok columns) hw
    · rename_i job message hw
      cases h
      exact .profileRead job (.error message) hw
    · cases h
  | enter r =>
    simp only [Tasks.section] at h
    split at h
    · rename_i job entry hw
      rw [Option.ite_none_left_eq_some] at h
      obtain ⟨hl, h⟩ := h
      cases h
      exact .enter r job entry hw (by simpa using hl)
    · cases h
  | resultStored r stored =>
    simp only [Tasks.section] at h
    split at h
    · rename_i job pending hw
      cases h
      exact .resultStored r stored job pending hw
    · cases h
  | settle r =>
    simp only [Tasks.section] at h
    split at h
    · rename_i job outcome hw
      cases h
      exact .settle r job outcome hw
    · cases h
  | heartbeat r =>
    simp only [Tasks.section] at h
    split at h
    · rename_i job place hw
      cases h
      exact .heartbeat r job (.inl ⟨place, hw⟩)
    · rename_i job outcome hw
      cases h
      exact .heartbeat r job (.inr ⟨outcome, hw⟩)
    · cases h
  | stop r =>
    simp only [Tasks.section] at h
    split at h
    · rename_i hw
      cases h
      exact .stopIdle r hw
    · rename_i job place hw
      cases h
      exact .stop r job (.inl ⟨place, hw⟩)
    · rename_i job outcome hw
      cases h
      exact .stop r job (.inr ⟨outcome, hw⟩)
    · cases h
  | callback r call =>
    simp only [Tasks.section] at h
    split at h
    · rename_i job stage ht
      rw [Option.ite_none_right_eq_some] at h
      obtain ⟨hcall, h⟩ := h
      cases h
      exact .callback r call job stage ht hcall
    · cases h
  | publish =>
    simp only [Tasks.section] at h
    split at h
    · rename_i job stage call ht
      rw [Option.ite_none_left_eq_some] at h
      obtain ⟨hl, h⟩ := h
      cases h
      exact .publish job stage call ht (by simpa using hl)
    · cases h
  | splitStored stored =>
    simp only [Tasks.section] at h
    split at h
    · rename_i job stage call pending ht
      cases h
      exact .splitStored stored job stage call pending ht
    · cases h
  | threadEnds ending =>
    simp only [Tasks.section] at h
    split at h
    · rename_i job stage ht
      rw [Option.ite_none_right_eq_some] at h
      obtain ⟨hending, h⟩ := h
      cases h
      exact .threadEnds ending job stage ht hending
    · cases h

/-! ### What a step keeps -/

/-- The records of a section are lawful within what it is granted, and its tasks fit. -/
theorem section_proceeds {u : World} {a : Action} {p : Prog Tasks} (hp : t.Runs w a p) (hs : u.Sound) (hdrawn : u.Drawn)
    (ht : t.Fits u) (hpaired : ∀ runId d, u.runs.get runId = some d → (lw.at a).torn ∨ d.Paired) (hg : Grants (lw.at a) u t a) :
    Proceeds (lw.at a) t p u := by
  have hnone : a.works = false → ¬ (lw.at a).works := fun h hw => by
    have hw : a.works = true := hw
    rw [h] at hw
    cases hw
  have hhas : ∀ {job : Job ℕ}, (∃ place, t.worker = .handling job place) ∨ (∃ outcome, t.worker = .settling job outcome) →
      u.Has job.runId fun _ => True := by
    rintro job (⟨place, h⟩ | ⟨outcome, h⟩)
    · have hfits := ht.worker
      rw [h] at hfits
      exact ⟨hfits.1, hfits.2.imp fun d hd => ⟨hd.1, trivial⟩⟩
    · have hfits := ht.worker
      rw [h] at hfits
      exact ⟨hfits.1, hfits.2.imp fun d hd => ⟨hd.1, trivial⟩⟩
  have hunlocked : ∀ {Q : Prop}, t.locked = false → t.locked → Q := fun h h' => by rw [h] at h'; cases h'
  cases hp with
  | createDataset tenantId hl =>
    have h := requests_aside (aside_createDataset tenantId) (hnone rfl) u
    exact proceeds_request ht h.1 fun _ => h.2
  | createRun r tenantId request admitted hl =>
    exact proceeds_request ht (requests_of_writes (writes_createRun hs r tenantId request admitted ⟨rfl, rfl⟩)
      (writes_createRun hs r tenantId request admitted trivial)) (hunlocked hl)
  | answer r tenantId runId request hl =>
    exact proceeds_request ht (requests_answer hs (hnone rfl) rfl rfl r tenantId runId request) (hunlocked hl)
  | control r tenantId runId c revision hl =>
    refine proceeds_request ht (requests_control hpaired (hnone rfl) rfl r tenantId runId c revision ?_ ?_) (hunlocked hl)
    · rintro rfl
      rfl
    · rintro rfl
      exact hg
  | decide now tenantId runId approvalId evidenceVersion decision human =>
    obtain ⟨hr, hh⟩ := requests_decide hs hpaired (hnone rfl) rfl now tenantId runId approvalId evidenceVersion decision
      human hg
    exact proceeds_request ht hr fun _ => hh
  | startFinalize tenantId request hl =>
    have h := requests_aside (aside_startFinalize tenantId request) (hnone rfl) u
    refine proceeds_bind ht h.1 (fun _ => h.2) fun goesOn => ⟨_, rfl, ?_⟩
    cases goesOn <;> exact ⟨rfl, rfl⟩
  | endFinalize stored request =>
    have h := requests_aside (aside_endFinalize request stored) (hnone rfl) u
    exact proceeds_bind ht (m := (endFinalize request stored).attempt) ⟨h.1.lawful, h.1.keeps⟩ (fun _ => h.2)
      fun _ => ⟨_, rfl, rfl, rfl⟩
  | startDeletion tenantId datasetId =>
    have h := requests_aside (aside_startDeletion tenantId datasetId) (hnone rfl) u
    exact proceeds_bind ht h.1 (fun _ => h.2) fun _ => ⟨_, rfl, rfl, rfl⟩
  | continueDeletion index r ok task htask hl =>
    have h := requests_continueDeletion hpaired (hnone rfl) rfl rfl r ok task
      fun runId rest hchores => hg task runId rest htask hchores
    refine proceeds_bind ht h (fun hlock => ?_) fun rest => ?_
    · refine (requests_aside (aside_continueDeletion r ok task fun runId rest hchores => ?_) (hnone rfl) u).2
      exact hunlocked (hl runId rest hchores) hlock
    · cases rest <;> exact ⟨_, rfl, rfl, rfl⟩
  | boot r h =>
    have hrepair : Writes (World.Lawful (lw.at (.boot r))) (ensureExecutionJobs r) u :=
      writes_read_bind (writes_repairJobs r u.runs hs fun _ h => h)
    have hthread := ht.thread_none (by simp [h]) (by simp [h])
    refine ends_bind ⟨hrepair, ?_⟩
    cases (ensureExecutionJobs r u).1 with
    | ok _ => exact ends_pure ⟨trivial, fun _ hmem => by cases hmem⟩
    | error f => exact ⟨by rw [h]; trivial, fun _ hmem => by rw [hthread] at hmem; cases hmem⟩
  | claim r h => exact proceeds_claim h hs ht
  | start job h => exact proceeds_start rfl h hs ht
  | profileRead job profile h => exact proceeds_profileRead h ht profile
  | enter r job entry h hl => exact proceeds_enter rfl rfl rfl h hs ht hpaired (hg job entry h)
  | resultStored r stored job pending h => exact proceeds_resultStored rfl rfl h hs ht hpaired (hg job pending h) stored
  | settle r job outcome h => exact proceeds_settle (hnone rfl) rfl h hs ht hpaired (hg job outcome h)
  | heartbeat r job h => exact proceeds_heartbeat (hhas h) hs ht
  | stopIdle r h =>
    have hthread := ht.thread_none (by simp [h]) (by simp [h])
    exact proceeds_pure (fits_worker trivial hthread)
  | stop r job h =>
    refine proceeds_cancelled (hnone rfl) (hhas h) (fun thread hmem => ?_) hs hdrawn ht hpaired (hg job h)
    rcases (ht.thread thread hmem).1 with hw | hw
    · rcases h with ⟨_, h⟩ | ⟨_, h⟩
      · rw [hw] at h; cases h
      · rw [hw] at h; cases h
    · rcases h with ⟨_, h⟩ | ⟨_, h⟩
      · rw [hw] at h; cases h; rfl
      · rw [hw] at h; cases h
  | callback r call job stage h hcall => exact proceeds_callback h hcall ht
  | publish job stage call h hl => exact proceeds_publish rfl Bool.false_ne_true Bool.false_ne_true h hs ht hpaired (hg _ h)
  | splitStored stored job stage call pending h =>
    exact proceeds_splitStored rfl Bool.false_ne_true Bool.false_ne_true h hs ht hpaired stored fun hstored => hg hstored _ h
  | threadEnds ending job stage h hending => exact proceeds_threadEnds h hending ht

/-! ### What a step tells -/

/-- The new items of a program have ids that have been drawn, it tells of every output that
it adds, and it sets phases with a progress of theirs. -/
structure Told (m : Prog α) (u : World) : Prop where
  drawn : Writes (fun w x => x.drawn w) m u
  covered : Covered (m u).2
  paced : Writes (fun _ x => x.paced) m u

section Told

variable {m : Prog α} {k : α → Prog β} {u : World}

theorem told_of_minds {sc : Scope} (h : Minds sc m) (u : World) : Told m u :=
  ⟨(h u).writes.mono fun _ _ hx => hx.drawn, (h u).covered, (h u).writes.mono fun _ _ hx => hx.paced⟩

theorem told_bind (hm : Told m u) (hk : ∀ a, Told (k a) (m.final u)) : Told (m >>= k) u := by
  refine ⟨writes_bind hm.drawn fun a _ => (hk a).drawn, ?_, writes_bind hm.paced fun a _ => (hk a).paced⟩
  have hc := hm.covered
  rw [bind_eq]
  cases h : m u with
  | mk result l =>
    rw [h] at hc
    cases result with
    | error e => exact hc
    | ok a =>
      have hka := (hk a).covered
      rw [final, h] at hka
      exact hc.append hka

theorem told_pure (a : α) (u : World) : Told (pure a : Prog α) u :=
  ⟨writes_pure a, covered_of_bare fun _ hx => absurd hx List.not_mem_nil, writes_pure a⟩

/-- A section whose tasks follow from what its program returns. -/
theorem told_then {t : α → Tasks} (hm : Told m u) : Told (m >>= fun a => pure (t a)) u :=
  told_bind hm fun a => told_pure (t a) _

theorem told_attempt (hm : Told m u) : Told (m.attempt : Prog (Except Fault α)) u :=
  ⟨hm.drawn, hm.covered, hm.paced⟩

/-- A record that adds nothing to a run. -/
def Write.apart : Write → Bool
  | .on _ (.artifactState ..) _ => true
  | .on .. => false
  | _ => true

theorem told_of_apart (h : Always Write.apart m) (u : World) : Told m u := by
  have hbare : ∀ x : Write, x.apart → x.adds = none ∧ (∀ w, x.drawn w) ∧ x.paced := by
    intro x hx
    cases x with
    | on runId c drawsId =>
      cases c with
      | artifactState => exact ⟨rfl, fun _ => rfl, rfl⟩
      | _ => cases hx
    | _ => exact ⟨rfl, fun _ => rfl, rfl⟩
  refine ⟨(h u).mono fun w x hx => (hbare x hx).2.1 w, covered_of_bare fun y hy => (hbare y ?_).1,
    (h u).mono fun _ x hx => (hbare x hx).2.2⟩
  have hall : Along (fun _ x => Write.apart x) u (m u).2 := h u
  exact along_iff.mp hall y hy

theorem told_of_aside (h : Aside m) (u : World) : Told m u := by
  refine told_of_apart (fun u => (h u).mono fun _ x hx => ?_) u
  cases x with
  | run | job => cases hx
  | on runId c drawsId =>
    cases c with
    | artifactState => rfl
    | _ => cases hx
  | _ => rfl

end Told

theorem apart_createRun (r : Readings) (tenantId : String) (request : RunRequest) (admitted : Except Problem Unit) :
    Always Write.apart (createRun r tenantId request admitted) :=
  always_read_bind fun _ => always_bind (always_check _) fun _ => always_bind (always_check _) fun _ =>
    always_bind (always_check _) fun _ => always_bind (always_newId rfl) fun _ => always_bind (always_write rfl) fun _ =>
      always_createExecutionJob fun _ => rfl

theorem apart_repairJobs (r : Readings) (runs : List (ℕ × RunData)) : Always Write.apart (repairJobs r runs) := by
  induction runs with
  | nil => exact always_pure _
  | cons p rest ih =>
    refine always_read_bind fun w => ?_
    split
    · exact always_bind (always_pure ()) fun _ => ih
    · exact always_bind (always_createExecutionJob fun _ => rfl) fun _ => ih

/-- The records of a run, with all that its programs may say. -/
abbrev Scope.of (runId : ℕ) : Scope := ⟨runId, true, true⟩

theorem told_continueDeletion (r : Readings) (ok : Bool) (task : DeletionTask) (u : World) :
    Told (continueDeletion r ok task) u := by
  unfold continueDeletion
  cases task.chores with
  | nil => exact told_of_apart (always_bind (always_write rfl) fun _ => always_pure _) u
  | cons chore rest =>
    have hperform : Told (chore.perform r task.tenantId ok) u := by
      cases chore with
      | cancel runId =>
        have hminds : Minds (.of runId) (control r task.tenantId runId .cancel none) := minds_control rfl _ _ _
        exact told_of_minds hminds u
      | removeVersion | removeArtifact | forgetArtifact =>
        exact told_of_aside (aside_perform r _ ok fun _ h => by cases h) u
    refine told_bind (told_attempt hperform) fun result => ?_
    cases result with
    | ok _ => exact told_pure _ _
    | error e => exact told_of_apart (always_bind (always_write rfl) fun _ => always_pure _) _

theorem section_told {a : Action} {p : Prog Tasks} (hp : t.Runs w a p) (u : World) : Told p u := by
  cases hp with
  | createDataset tenantId => exact told_then (told_of_aside (aside_createDataset tenantId) u)
  | createRun r tenantId request admitted => exact told_then (told_of_apart (apart_createRun r tenantId request admitted) u)
  | answer r tenantId runId request =>
    have hminds : Minds (.of runId) (answer r tenantId runId request) := minds_answer rfl _ _
    exact told_then (told_of_minds hminds u)
  | control r tenantId runId c revision =>
    have hminds : Minds (.of runId) (control r tenantId runId c revision) := minds_control rfl _ _ _
    exact told_then (told_of_minds hminds u)
  | decide now tenantId runId approvalId evidenceVersion decision human =>
    have hminds : Minds (.of runId) (decide now tenantId runId approvalId evidenceVersion decision human) :=
      minds_decide rfl _ _ _ _ _ _
    exact told_then (told_of_minds hminds u)
  | startFinalize tenantId request => exact told_then (told_of_aside (aside_startFinalize tenantId request) u)
  | endFinalize stored request => exact told_then (told_attempt (told_of_aside (aside_endFinalize request stored) u))
  | startDeletion tenantId datasetId => exact told_then (told_of_aside (aside_startDeletion tenantId datasetId) u)
  | continueDeletion index r ok task =>
    refine told_bind (told_continueDeletion r ok task u) fun rest => ?_
    cases rest <;> exact told_pure _ _
  | boot r =>
    have hrepair : Always Write.apart (ensureExecutionJobs r) := always_read_bind fun w => apart_repairJobs r w.runs
    exact told_then (told_of_apart hrepair u)
  | claim r =>
    refine told_bind (told_attempt (told_of_apart (always_onJobs rfl) u)) fun reply => ?_
    cases reply with
    | ok reply => cases reply <;> exact told_pure _ _
    | error f => exact told_pure _ _
  | start job =>
    have hminds : Minds (.of job.runId) (startHandler job) := minds_startHandler job
    exact told_then (told_attempt (told_of_minds hminds u))
  | profileRead job profile => exact told_pure _ u
  | enter r job entry =>
    have hminds : Minds (.of job.runId) (enter w r job entry) := minds_enter rfl rfl entry
    exact told_then (told_attempt (told_of_minds hminds u))
  | resultStored r stored job pending =>
    have hminds : Minds (.of job.runId) (resumeResult r job.runId pending stored >>= published) :=
      minds_bind (minds_resumeResult rfl pending stored fun _ => rfl) fun _ => minds_published _
    exact told_then (told_attempt (told_of_minds hminds u))
  | settle r job outcome =>
    have hminds : Minds (.of job.runId) (settle w r job outcome) := minds_settle rfl rfl outcome
    refine told_bind (told_attempt (told_of_minds hminds u)) fun result => ?_
    cases result <;> exact told_pure _ _
  | heartbeat r job =>
    refine told_bind (told_attempt (told_of_apart (always_onJobs rfl) u)) fun result => ?_
    cases result <;> exact told_pure _ _
  | stopIdle r => exact told_pure _ u
  | stop r job =>
    have hminds : Minds (.of job.runId) (retryJob r job 0 "CancelledError: worker stopped") := minds_retryJob rfl rfl _ _
    exact told_then (told_attempt (told_of_minds hminds u))
  | callback r call job stage =>
    refine told_bind (told_attempt (told_of_apart (always_onJobs rfl) u)) fun result => ?_
    cases result <;> exact told_pure _ _
  | publish job stage call =>
    have hminds : Minds (.of job.runId) (publishStage job.runId call) := minds_publishStage rfl call
    refine told_bind (told_attempt (told_of_minds hminds u)) fun result => ?_
    cases result with
    | ok pending => cases pending <;> exact told_pure _ _
    | error f => exact told_pure _ _
  | splitStored stored job stage call pending =>
    have hminds : Minds (.of job.runId) (resumeStage job.runId pending stored >>= fun _ => pure (none : Option PendingSplit)) :=
      minds_bind (minds_resumeStage rfl pending stored fun _ => rfl) fun _ => minds_pure _
    refine told_bind (told_attempt (told_of_minds hminds u)) fun result => ?_
    cases result with
    | ok pending => cases pending <;> exact told_pure _ _
    | error f => exact told_pure _ _
  | threadEnds => exact told_pure _ u

/-! ### Steps of the process -/

/-- The action that a step takes, or dies in. -/
def System.Event.action : System.Event → Action
  | .act a => a
  | .crash a _ => a

/-- The step is a death of the process. -/
def System.Event.dies : System.Event → Bool
  | .act _ => false
  | .crash .. => true

/-- What a step is: a section to its end, or its first records. -/
inductive System.Steps (w : Worker.LocalExecutionWorker) (s : System) : System.Event → System → Prop
  | act {a : Action} {p : Prog Tasks} (hp : s.tasks.section w a = some p) :
      Steps w s (.act a) ⟨p.final s.world, match (p s.world).1 with | .ok t => t | .error _ => s.tasks⟩
  | crash {a : Action} {p : Prog Tasks} (hp : s.tasks.section w a = some p) (written : ℕ) :
      Steps w s (.crash a written) ⟨p.cut written s.world, .off⟩

theorem System.steps {e : System.Event} (h : System.step w s e = some s') : System.Steps w s e s' := by
  cases e with
  | act a =>
    obtain ⟨p, hp, hs⟩ := Option.map_eq_some_iff.mp h
    have hrun := System.Steps.act hp
    unfold final at hrun
    cases hr : p s.world with
    | mk result records =>
      rw [hr] at hs hrun
      cases result <;> exact hs ▸ hrun
  | crash a written =>
    obtain ⟨p, hp, rfl⟩ := Option.map_eq_some_iff.mp h
    exact .crash hp written

/-- The records of a step. -/
def System.records (w : Worker.LocalExecutionWorker) (s : System) : System.Event → List Write
  | .act a => match s.tasks.section w a with
    | some p => (p s.world).2
    | none => []
  | .crash a written => match s.tasks.section w a with
    | some p => (p s.world).2.take written
    | none => []

/-- What holds of the process at any time. -/
structure System.Inv (s : System) : Prop where
  sound : s.world.Sound
  drawn : s.world.Drawn
  tasks : s.tasks.Fits s.world

/-- What a step writes. -/
structure System.Writes (w : Worker.LocalExecutionWorker) (s : System) (e : System.Event) (s' : System) : Prop where
  world : s'.world = replay s.world (System.records w s e)
  drawn : Along (fun u x => x.drawn u) s.world (System.records w s e)
  lawful : ∀ {lw : Leeway}, (∀ runId d, s.world.runs.get runId = some d → (lw.at e.action).torn ∨ d.Paired) →
    Grants (lw.at e.action) s.world s.tasks e.action →
      Along (World.Lawful (lw.at e.action)) s.world (System.records w s e)
  covered : e.dies = false → Covered (System.records w s e)
  paced : Along (fun _ x => x.paced) s.world (System.records w s e)

theorem System.writes {e : System.Event} (hi : s.Inv) (h : System.step w s e = some s') : System.Writes w s e s' := by
  cases System.steps h with
  | @act a p hp =>
    have hrecords : System.records w s (.act a) = (p s.world).2 := by simp only [System.records, hp]
    have htold := section_told (section_runs hp) s.world
    constructor
    · rw [hrecords]
      rfl
    · rw [hrecords]
      exact htold.drawn
    · intro lw hpaired hg
      rw [hrecords]
      exact (section_proceeds (section_runs hp) hi.sound hi.drawn hi.tasks hpaired hg).1
    · intro _
      rw [hrecords]
      exact htold.covered
    · rw [hrecords]
      exact htold.paced
  | @crash a p hp written =>
    have hrecords : System.records w s (.crash a written) = (p s.world).2.take written := by simp only [System.records, hp]
    have htold := section_told (section_runs hp) s.world
    constructor
    · rw [hrecords]
      rfl
    · rw [hrecords]
      exact htold.drawn.take written
    · intro lw hpaired hg
      rw [hrecords]
      exact Along.take (section_proceeds (section_runs hp) hi.sound hi.drawn hi.tasks hpaired hg).1 written
    · intro h
      cases h
    · rw [hrecords]
      exact htold.paced.take written

/-- What each lawful record keeps, a step keeps. -/
theorem System.Writes.keeps {e : System.Event} {I : World → Prop} {lw : Leeway} (h : System.Writes w s e s')
    (hpaired : ∀ runId d, s.world.runs.get runId = some d → (lw.at e.action).torn ∨ d.Paired)
    (hg : Grants (lw.at e.action) s.world s.tasks e.action)
    (hstep : ∀ u x, I u → World.Lawful (lw.at e.action) u x → I (u.apply x)) (hs : I s.world) : I s'.world := by
  rw [h.world]
  exact (h.lawful hpaired hg).keeps hstep hs

/-- Every step keeps what holds of the process. -/
theorem System.inv_step {e : System.Event} (hi : s.Inv) (h : System.step w s e = some s') : s'.Inv := by
  have hwrites := System.writes hi h
  have hpaired : ∀ runId d, s.world.runs.get runId = some d → (Leeway.all.at e.action).torn ∨ d.Paired :=
    fun _ _ _ => .inl trivial
  have hgrants := grants_of_excuses ((Leeway.Excuses.all s e.action).at e.action)
  refine ⟨hwrites.keeps hpaired hgrants (fun _ _ hu hx => world_sound_apply hu hx) hi.sound, ?_, ?_⟩
  · rw [hwrites.world]
    exact hwrites.drawn.keeps (fun _ _ hu hx => drawn_apply hu hx) hi.drawn
  · cases System.steps h with
    | act hp =>
      have hafter := (section_proceeds (section_runs hp) hi.sound hi.drawn hi.tasks hpaired hgrants).2
      dsimp only
      split
      · rename_i t hr
        rw [hr] at hafter
        exact hafter
      · rename_i f hr
        rw [hr] at hafter
        exact hafter
    | crash => exact ⟨trivial, fun _ hmem => by cases hmem⟩

theorem System.inv_init : System.init.Inv where
  sound := by
    refine ⟨?_, ?_, fun p hp => absurd hp List.not_mem_nil⟩
    · intro runId d hd
      cases hd
    · intro runId row hrow
      cases hrow
  drawn := by
    intro runId d hd
    cases hd
  tasks := ⟨trivial, fun _ hthread => by cases hthread⟩

/-- At every point of every history. -/
theorem System.inv_run {ok : System → System.Event → Prop} {es : List System.Event}
    (h : Runs.Run (System.step w) ok System.init es s) : s.Inv :=
  h.invariant (fun _ _ _ hi _ hstep => inv_step hi hstep) inv_init

/-- What a new run has and lawful changes of sound runs keep, every run has at every point
of a history that makes no slips but those that are allowed. -/
theorem System.runs_invariant (lw : Leeway) {ok : System → System.Event → Prop} {P : RunData → Prop} {es : List System.Event}
    (h : Runs.Run (System.step w) ok System.init es s)
    (hexcuses : ∀ (s : System) (e : System.Event), s.Inv → (∀ runId d, s.world.runs.get runId = some d → P d) → ok s e →
      lw.Excuses s e.action)
    (hpaired : ∀ d, P d → lw.torn ∨ d.Paired)
    (hcreate : ∀ (request : RunRequest) (tenantId : String), P (.create (request.run tenantId)))
    (hchange : ∀ {a : Action} {d : RunData} {c : Change}, Sound d → P d → Lawful (lw.at a) d c → P (d.apply c))
    {runId : ℕ} {d : RunData} (hd : s.world.runs.get runId = some d) : P d := by
  have hruns : ∀ runId d, s.world.runs.get runId = some d → P d := by
    refine h.invariant_of (J := System.Inv) (I := fun s => ∀ runId d, s.world.runs.get runId = some d → P d)
      (fun _ _ _ hi _ hstep => inv_step hi hstep) ?_ inv_init (fun _ _ h => by cases h)
    intro s e s' hinv hi hok hstep
    have hwrites := System.writes hinv hstep
    let I : World → Prop := fun u => u.Sound ∧ ∀ runId d, u.runs.get runId = some d → P d
    have hkeeps : ∀ u x, I u → World.Lawful (lw.at e.action) u x → I (u.apply x) := fun u x hu hx =>
      ⟨world_sound_apply hu.1 hx, fun _ _ => runs_apply hx hu.1 hcreate hchange hu.2⟩
    have hpaired' : ∀ runId d, s.world.runs.get runId = some d → (lw.at e.action).torn ∨ d.Paired :=
      fun runId d hd => hpaired d (hi runId d hd)
    have hgrants := grants_of_excuses ((hexcuses s e hinv hi hok).at e.action)
    exact (hwrites.keeps hpaired' hgrants hkeeps ⟨hinv.sound, hi⟩).2
  exact hruns runId d hd

/-- What the lawful changes of sound runs climb, every run climbs along lawful records. -/
theorem climbs_along {R : RunData → RunData → Prop} {u : World} {l : List Write} (hl : Along (World.Lawful lw) u l)
    (hs : u.Sound) (hrefl : ∀ d, R d d) (htrans : ∀ d d₁ d₂, R d d₁ → R d₁ d₂ → R d d₂)
    (hchange : ∀ {d : RunData} {c : Change}, Sound d → Lawful lw d c → R d (d.apply c))
    {runId : ℕ} {d : RunData} (hd : u.runs.get runId = some d) : ∃ d', (replay u l).runs.get runId = some d' ∧ R d d' := by
  let I : World → Prop := fun v => v.Sound ∧ ∃ d', v.runs.get runId = some d' ∧ R d d'
  have hkeeps : ∀ v x, I v → World.Lawful lw v x → I (v.apply x) := by
    rintro v x ⟨hv, d₁, hd₁, hr⟩ hx
    refine ⟨world_sound_apply hv hx, ?_⟩
    rcases run_moves hx hd₁ with hsame | ⟨c, hc, hmoved⟩
    · exact ⟨d₁, hsame, hr⟩
    · exact ⟨_, hmoved, htrans _ _ _ hr (hchange (hv.runs runId d₁ hd₁).1 hc)⟩
  exact (hl.keeps hkeeps ⟨hs, d, hd, hrefl d⟩).2

/-- What the lawful changes of sound runs climb, every run climbs in a step. -/
theorem System.step_climbs (lw : Leeway) {R : RunData → RunData → Prop} {e : System.Event}
    (h : System.step w s e = some s') (hi : s.Inv) (hexcuses : lw.Excuses s e.action) (htorn : lw.torn)
    (hrefl : ∀ d, R d d) (htrans : ∀ d d₁ d₂, R d d₁ → R d₁ d₂ → R d d₂)
    (hchange : ∀ {d : RunData} {c : Change}, Sound d → Lawful (lw.at e.action) d c → R d (d.apply c))
    {runId : ℕ} {d : RunData} (hd : s.world.runs.get runId = some d) : ∃ d', s'.world.runs.get runId = some d' ∧ R d d' := by
  have hwrites := System.writes hi h
  rw [hwrites.world]
  have hlawful := hwrites.lawful (fun _ _ _ => .inl htorn) (grants_of_excuses (hexcuses.at e.action))
  exact climbs_along hlawful hi.sound hrefl htrans hchange hd

/-- What lawful changes of sound runs climb, every run climbs along a history that makes no
slips but those that are allowed; no run is lost. -/
theorem System.runs_climb (lw : Leeway) {ok : System → System.Event → Prop} {R : RunData → RunData → Prop}
    {es : List System.Event} (h : Runs.Run (System.step w) ok s es s') (hi : s.Inv)
    (hexcuses : ∀ (s : System) (e : System.Event), ok s e → lw.Excuses s e.action) (htorn : lw.torn)
    (hrefl : ∀ d, R d d) (htrans : ∀ d d₁ d₂, R d d₁ → R d₁ d₂ → R d d₂)
    (hchange : ∀ {a : Action} {d : RunData} {c : Change}, Sound d → Lawful (lw.at a) d c → R d (d.apply c))
    {runId : ℕ} {d : RunData} (hd : s.world.runs.get runId = some d) : ∃ d', s'.world.runs.get runId = some d' ∧ R d d' := by
  refine h.invariant_of (J := System.Inv) (I := fun s => ∃ d', s.world.runs.get runId = some d' ∧ R d d')
    (fun _ _ _ hi _ hstep => inv_step hi hstep) ?_ hi ⟨d, hd, hrefl d⟩
  intro s e s' hinv hclimbed hok hstep
  obtain ⟨d₁, hd₁, hr⟩ := hclimbed
  obtain ⟨d₂, hd₂, hr'⟩ := System.step_climbs lw hstep hinv (hexcuses s e hok) htorn hrefl htrans hchange hd₁
  exact ⟨d₂, hd₂, htrans _ _ _ hr hr'⟩

/-! ### Between any two records -/

/-- The states of the world through a history, one before each record of each step and one
at its end. -/
def System.worlds (w : Worker.LocalExecutionWorker) : System → List System.Event → List World
  | s, [] => [s.world]
  | s, e :: es => trail s.world (System.records w s e) ++ (System.step w s e).elim [] fun s' => System.worlds w s' es

/-- A preorder that the records of every allowed step climb is climbed through a history. -/
theorem System.worlds_climb {ok : System → System.Event → Prop} {I : System → Prop} {R : World → World → Prop}
    (hrefl : ∀ u, R u u) (htrans : ∀ u v v', R u v → R v v' → R u v')
    (hI : ∀ s e s', s.Inv → I s → ok s e → System.step w s e = some s' → I s')
    (hrecords : ∀ s e s', s.Inv → I s → ok s e → System.step w s e = some s' →
      Along (fun u x => R u (Replay.apply u x)) s.world (System.records w s e))
    {es : List System.Event} (h : Runs.Run (System.step w) ok s es s') (hi : s.Inv) (hs : I s) :
    (System.worlds w s es).Pairwise R ∧ ∀ u ∈ System.worlds w s es, R s.world u := by
  induction h with
  | nil s => exact ⟨List.pairwise_singleton _ _, fun u hu => List.mem_singleton.mp hu ▸ hrefl _⟩
  | @cons s v _ e es hok hstep _ ih =>
    obtain ⟨hpairs, hlater⟩ := ih (inv_step hi hstep) (hI s e v hi hs hok hstep)
    have hclimbs := hrecords s e v hi hs hok hstep
    have hnext : v.world = replay s.world (System.records w s e) := (System.writes hi hstep).world
    obtain ⟨htrail, hbetween⟩ := hclimbs.climbs_trail hrefl htrans
    have hall : R s.world v.world := hnext ▸ hclimbs.climbs hrefl htrans
    rw [System.worlds, hstep]
    refine ⟨List.pairwise_append.mpr ⟨htrail, hpairs, fun u hu u' hu' => ?_⟩, fun u hu => ?_⟩
    · have hu : R u v.world := hnext ▸ (hbetween u hu).2
      exact htrans _ _ _ hu (hlater u' hu')
    · rcases List.mem_append.mp hu with hu | hu
      · exact (hbetween u hu).1
      · exact htrans _ _ _ hall (hlater u hu)

/-- Every run is there still, as far from what it was as `R` says. -/
def World.Each (R : RunData → RunData → Prop) (u v : World) : Prop :=
  ∀ runId d, u.runs.get runId = some d → ∃ d', v.runs.get runId = some d' ∧ R d d'

section Each

variable {R : RunData → RunData → Prop} {u v : World}

theorem each_refl (hrefl : ∀ d, R d d) (u : World) : u.Each R u := fun _ d hd => ⟨d, hd, hrefl d⟩

theorem each_trans (htrans : ∀ d d₁ d₂, R d d₁ → R d₁ d₂ → R d d₂) (u v v' : World) (h : u.Each R v) (h' : v.Each R v') :
    u.Each R v' := by
  intro runId d hd
  obtain ⟨d₁, hd₁, hr⟩ := h runId d hd
  obtain ⟨d₂, hd₂, hr'⟩ := h' runId d₁ hd₁
  exact ⟨d₂, hd₂, htrans _ _ _ hr hr'⟩

theorem each_of_eq (hrefl : ∀ d, R d d) (h : v.runs = u.runs) : u.Each R v := fun _ d hd => ⟨d, h ▸ hd, hrefl d⟩

/-- A lawful record of a world in which every run is as `P` says. -/
theorem each_apply {P : RunData → Prop} {x : Write} (hrefl : ∀ d, R d d)
    (hchange : ∀ {d : RunData} {c : Change}, Sound d → P d → Lawful lw d c → R d (d.apply c)) (hs : u.Sound)
    (hP : ∀ runId d, u.runs.get runId = some d → P d) (hx : u.Lawful lw x) : u.Each R (u.apply x) := by
  intro runId d hd
  rcases run_moves hx hd with hsame | ⟨c, hc, hmoved⟩
  · exact ⟨d, hsame, hrefl d⟩
  · exact ⟨_, hmoved, hchange (hs.runs runId d hd).1 (hP runId d hd) hc⟩

end Each

/-- What the lawful changes of runs climb, the runs climb between any two records of a
history that makes no slips but those that are allowed. -/
theorem System.runs_between (lw : Leeway) {ok : System → System.Event → Prop} {P : RunData → Prop}
    {R : RunData → RunData → Prop} {es : List System.Event} (h : Runs.Run (System.step w) ok System.init es s)
    (hexcuses : ∀ (s : System) (e : System.Event), ok s e → lw.Excuses s e.action) (htorn : lw.torn)
    (hcreate : ∀ (request : RunRequest) (tenantId : String), P (.create (request.run tenantId)))
    (hkeeps : ∀ {a : Action} {d : RunData} {c : Change}, Sound d → P d → Lawful (lw.at a) d c → P (d.apply c))
    (hrefl : ∀ d, R d d) (htrans : ∀ d d₁ d₂, R d d₁ → R d₁ d₂ → R d d₂)
    (hchange : ∀ {a : Action} {d : RunData} {c : Change}, Sound d → P d → Lawful (lw.at a) d c → R d (d.apply c)) :
    (System.worlds w System.init es).Pairwise (World.Each R) := by
  let I : World → Prop := fun u => u.Sound ∧ ∀ runId d, u.runs.get runId = some d → P d
  have hstep : ∀ (a : Action) (u : World) (x : Write), I u → u.Lawful (lw.at a) x → I (u.apply x) := fun a u x hu hx =>
    ⟨world_sound_apply hu.1 hx, fun _ _ => runs_apply hx hu.1 hcreate hkeeps hu.2⟩
  have hlawful : ∀ s e s', System.Inv s → ok s e → System.step w s e = some s' →
      Along (World.Lawful (lw.at e.action)) s.world (System.records w s e) := fun s e s' hi hok hs =>
    (System.writes hi hs).lawful (fun _ _ _ => .inl htorn) (grants_of_excuses ((hexcuses s e hok).at e.action))
  refine (System.worlds_climb (I := fun s => I s.world) (each_refl hrefl) (each_trans htrans) ?_ ?_ h System.inv_init
    ⟨System.inv_init.sound, fun _ _ hd => by cases hd⟩).1
  · intro s e s' hi hI hok hs
    rw [(System.writes hi hs).world]
    exact (hlawful s e s' hi hok hs).keeps (hstep e.action) hI
  · intro s e s' hi hI hok hs
    refine ((hlawful s e s' hi hok hs).within (hstep e.action) hI).mono fun u x hx => ?_
    exact each_apply hrefl hchange hx.1.1 hx.1.2 hx.2

/-! ### A history to try -/

namespace System

/-- The clock after some seconds. -/
def second (n : ℕ) : Readings := .at ((n : ℚ) / 86400)

/-- The process boots, a dataset gets its first version, and a run is created on it. The
version has the id 3, and the run the id 4. -/
def opening (requiresApproval : Bool) : List System.Event :=
  [.act (.boot (second 0)), .act (.createDataset "t"), .act (.startFinalize "t" ⟨3, 1, "sha"⟩), .act (.endFinalize true),
    .act (.createRun (second 1) "t" ⟨3, ⟨some "y", true, none⟩, requiresApproval⟩ (.ok ()))]

/-- The worker profiles the dataset, up to the lock. -/
def profiling (n : ℕ) : List System.Event :=
  [.act (.claim (second n)), .act .start, .act (.profileRead (.ok ["x", "y"]))]

/-- The handler takes the lock, and the worker commits how it ends. -/
def entering (n : ℕ) : List System.Event := [.act (.enter (second n)), .act (.settle (second n))]

/-- The worker starts to train. -/
def training (n : ℕ) : List System.Event := [.act (.claim (second n)), .act .start, .act (.enter (second n))]

/-- The backend reports its stages, and the split is stored. -/
def reporting (n : ℕ) : List System.Event :=
  [.act (.callback (second n) (.plan "split")), .act .publish, .act (.splitStored true),
    .act (.callback (second n) (.train [1, 2])), .act .publish]

/-- What the backend returns at the end. -/
def evaluated : TrainingResult := ⟨[], true, "MODEL", "application/octet-stream", "model", fun _ => "report"⟩

/-- The training ends, and its model and its report are stored. -/
def publishing (n : ℕ) : List System.Event :=
  [.act (.threadEnds (.result evaluated)), .act (.enter (second n)), .act (.resultStored (second n) true),
    .act (.resultStored (second n) true), .act (.settle (second n))]

/-- A run from its creation to its success, or to its approval. -/
def wholeRun (requiresApproval : Bool) : List System.Event :=
  opening requiresApproval ++ profiling 2 ++ entering 3 ++ training 4 ++ reporting 5 ++ publishing 6

end System

end AutomlApi.Workflow
