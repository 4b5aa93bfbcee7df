import AutomlApi.Library.Runs
import AutomlApi.Workflow.Laws

/-! The synthetic workflow, which answers for runs where no worker is there to train: a
request does all there is to do under the lock, and an answer brings its run to its end. A
request may break off between two of its writes. -/

namespace AutomlApi.Workflow.Synthetic

open Durable

/-! ### Requests -/

/-- The run that a request creates. -/
def newRun (tenantId : String) (request : RunRequest) : Run :=
  { request.run tenantId with availableActions := [.cancel] }

def profiling : RunPatch := { phase := some .profile, status := some .running, progress := some 15 }

/-- The run waits for the one answer that it takes. -/
def waiting (packetId : ℕ) : RunPatch :=
  { phase := some .plan
    status := some .waitingUser
    progress := some 35
    blocking := some ⟨[packetId], []⟩
    availableActions := some [.answer, .pause, .cancel] }

/-- `WorkflowService.create_run`; `admitted` is what the limits, the backend and the webhooks say. -/
def createRun (tenantId : String) (request : RunRequest) (admitted : Except Problem Unit) : Prog Unit := do
  let w ← read
  let version ← check (owned DatasetVersion.tenantId tenantId (w.versions.get request.datasetVersionId))
  let _ ← check (require (version.status = .ready) 409 "dataset_not_ready")
  let _ ← check (admitted.mapError Fault.problem)
  let runId ← newId
  write (.run runId (newRun tenantId request))
  let run ← updateRun runId profiling none false
  let run ← completeStage runId run .ingest
  let run ← emit runId run (.phaseChanged .profile .running)
  let (_, run) ← commitOutput runId run (.of .dataQualityReport .profile)
  let run ← completeStage runId run .profile
  let packetId ← newId
  let waitSetId ← newId
  let run ← updateRun runId (waiting packetId) (some run.runRevision) true
  let packet ← createDecisionPacket runId ⟨packetId, waitSetId, 1, .opened, [.target []]⟩
  let run ← emit runId run (.phaseChanged .plan .waitingUser)
  let _ ← emit runId run (.packetRequested packet.decisionPacketId)
  pure ()

/-- An answer; `accepted` is what the checks of the caller and of the answers say. -/
structure AnswerRequest where
  waitSetId : ℕ
  waitSetRevision : ℕ
  accepted : Except Problem Unit
  reportSha256 : String
  /-- The object store takes the report. -/
  stored : Bool

def confirmed : RunPatch :=
  { status := some .running
    phase := some .plan
    progress := some 50
    blocking := some ⟨[], []⟩
    availableActions := some [.pause, .cancel] }

def completed : RunPatch :=
  { phase := some .package
    status := some .terminal
    outcome := some (some .succeeded)
    progress := some 100
    blocking := some ⟨[], []⟩
    availableActions := some [] }

/-- The stages that nothing has worked on end together with the run. -/
def completedEvents : List Payload :=
  [.stageCompleted .plan, .stageCompleted .train, .stageCompleted .evaluate, .stageCompleted .package, .completed]

/-- `WorkflowService.answer`. -/
def answer (tenantId : String) (runId : ℕ) (request : AnswerRequest) : Prog Unit := do
  let d ← ownedRun tenantId runId
  match d.packets.find? (·.waitSetId = request.waitSetId) with
  | none => raise (problem 404 "not_found")
  | some packet => do
    let _ ← check (require (packet.waitSetRevision = request.waitSetRevision) 412 "stale_revision")
    let _ ← check (require (packet.status = .opened ∧ d.run.status = .waitingUser) 409 "decision_packet_not_open")
    let _ ← check (request.accepted.mapError Fault.problem)
    let commandId ← createCommand runId .answer .running
    let _ ← change runId (.packetSet packet.decisionPacketId .answered (request.waitSetRevision + 1))
    let run ← updateRun runId confirmed (some d.run.runRevision) true
    let run ← emit runId run (.phaseChanged .plan .running)
    let (_, run) ← commitOutput runId run (.of .taskSpec .plan)
    let artifactId ← newId
    let _ ← check (if request.stored then .ok () else .error (.runtime "BlobStoreError"))
    let artifact ← artifactStored runId ⟨artifactId, "RUN_REPORT_JSON", "application/json", request.reportSha256⟩
    let (o, run) ← commitOutput runId run { Output.of .runReport .package with artifactIds := [artifact.artifactId] }
    linkArtifact runId o.outputId artifact
    let resultId ← newId
    let run ← finalizeRunWithResult runId (some resultId) .succeeded (some "MILESTONE_1_NO_TRAINING") completed
      completedEvents (some run.runRevision)
    let _ ← change runId (.commandSet commandId .succeeded (some run.runRevision))
    pure ()

/-- `pause`, `resume` and `cancel`, which wake no job. -/
def control (tenantId : String) (runId : ℕ) (c : Control) (revision : Option ℕ) : Prog Unit := do
  let d ← ownedRun tenantId runId
  let _ ← Durable.check (c.check d.run revision)
  let commandId ← createCommand runId c.command .running
  let run ← c.act runId d
  let _ ← change runId (.commandSet commandId .succeeded (some run.runRevision))
  pure ()

/-! ### Histories -/

inductive Request where
  | dataset (tenantId : String)
  | finalize (request : FinalizeRequest) (stored : Bool)
  | createRun (tenantId : String) (request : RunRequest) (admitted : Except Problem Unit)
  | answer (tenantId : String) (runId : ℕ) (request : AnswerRequest)
  | control (tenantId : String) (runId : ℕ) (c : Control) (revision : Option ℕ)

def Request.prog : Request → Prog Unit
  | dataset tenantId => createDataset tenantId
  | finalize request stored => endFinalize request stored
  | createRun tenantId request admitted => Synthetic.createRun tenantId request admitted
  | answer tenantId runId request => Synthetic.answer tenantId runId request
  | control tenantId runId c revision => Synthetic.control tenantId runId c revision

/-- A request runs to its end, or breaks off after some of its writes. -/
def step (w : World) : Request × Option ℕ → Option World
  | (request, none) => some (request.prog.final w)
  | (request, some n) => some (request.prog.cut n w)

/-! ### What a write may tell -/

/-- What the events of a run tell: they are numbered, no stage ends twice, and before the
run has its result only the first two have ended. -/
structure Told (d : RunData) : Prop where
  numbers : d.events.map Event.seq = List.range' 1 d.events.length
  once : d.stages.Nodup
  early : d.result = none → ∀ phase ∈ d.stages, phase = .ingest ∨ phase = .profile

/-- A change that tells of a new early stage, or of the rest of them with the result. -/
def Calm (d : RunData) : Change → Prop
  | .event payload _ => ∀ phase ∈ payload.stage, (phase = .ingest ∨ phase = .profile) ∧ phase ∉ d.stages
  | .mutated _ payload => payload.stage = none
  | .finalized _ _ events =>
    d.result = none ∧
      (events.filterMap Payload.stage = [] ∨ events.filterMap Payload.stage = [.plan, .train, .evaluate, .package])
  | _ => True

theorem numbers_append {d : RunData} (h : d.events.map Event.seq = List.range' 1 d.events.length) (payload : Payload)
    (revision : ℕ) :
    (d.append payload revision).events.map Event.seq = List.range' 1 (d.append payload revision).events.length := by
  simp only [RunData.append, List.map_append, List.map_cons, List.map_nil, List.length_append, List.length_singleton, h]
  rw [List.range'_concat, Nat.one_mul, Nat.add_comm 1]

theorem foldl_append (d : RunData) (payloads : List Payload) (revision : ℕ)
    (h : d.events.map Event.seq = List.range' 1 d.events.length) :
    let d' := payloads.foldl (fun d payload => d.append payload revision) d
    d'.events.map Event.seq = List.range' 1 d'.events.length ∧ d'.stages = d.stages ++ payloads.filterMap Payload.stage := by
  induction payloads generalizing d with
  | nil => exact ⟨h, (List.append_nil _).symm⟩
  | cons payload payloads ih =>
    obtain ⟨hnumbers, hstages⟩ := ih (d.append payload revision) (numbers_append h payload revision)
    refine ⟨hnumbers, hstages.trans ?_⟩
    rw [stages_append, List.append_assoc]
    cases hstage : payload.stage <;> simp [hstage]

theorem Told.apply {d : RunData} (h : Told d) {c : Change} (hc : Calm d c) : Told (d.apply c) := by
  cases c with
  | event payload revision =>
    refine ⟨numbers_append h.numbers payload revision, ?_, fun hopen phase hphase => ?_⟩
    · show (d.append payload revision).stages.Nodup
      rw [stages_append]
      refine List.nodup_append.mpr ⟨h.once, by cases payload.stage <;> simp, fun a ha b hb hab => ?_⟩
      exact (hc b (Option.mem_toList.mp hb)).2 (hab ▸ ha)
    · change phase ∈ (d.append payload revision).stages at hphase
      rw [stages_append] at hphase
      rcases List.mem_append.mp hphase with hphase | hphase
      · exact h.early hopen phase hphase
      · exact (hc phase (Option.mem_toList.mp hphase)).1
  | mutated p payload =>
    have hstages : (d.apply (.mutated p payload)).stages = d.stages := by
      refine (stages_append ..).trans ?_
      rw [show payload.stage = none from hc]
      exact List.append_nil _
    exact ⟨numbers_append (d := { d with run := d.run.update p true }) h.numbers payload _, hstages ▸ h.once,
      fun hopen => hstages ▸ h.early hopen⟩
  | finalized result p events =>
    obtain ⟨hopen, hevents⟩ := hc
    obtain ⟨hnumbers, hstages⟩ := foldl_append { d with run := d.run.update p true, result := some result } events
      (d.run.update p true).runRevision h.numbers
    refine ⟨hnumbers, ?_, fun hnone => ?_⟩
    · refine (congrArg List.Nodup hstages).mpr ?_
      show (d.stages ++ events.filterMap Payload.stage).Nodup
      rcases hevents with hevents | hevents
      · rw [hevents, List.append_nil]
        exact h.once
      · rw [hevents]
        refine List.nodup_append.mpr ⟨h.once, by decide, fun a ha b hb hab => ?_⟩
        subst hab
        rcases h.early hopen a ha with rfl | rfl <;> simp at hb
    · have hsome := foldl_append_eq RunData.result (fun _ _ _ => rfl)
        { d with run := d.run.update p true, result := some result } events (d.run.update p true).runRevision
      rw [RunData.apply, hsome] at hnone
      cases hnone
  | _ => exact ⟨h.numbers, h.once, h.early⟩

theorem told_create (r : Run) : Told (.create r) := ⟨rfl, List.nodup_nil, fun _ _ h => absurd h List.not_mem_nil⟩

/-- A write that is calm on the run that it changes. -/
def CalmOn (w : World) : Write → Prop
  | .on runId c _ => ∀ d, w.runs.get runId = some d → Calm d c
  | _ => True

def AllTold (w : World) : Prop := ∀ runId d, w.runs.get runId = some d → Told d

theorem AllTold.apply {w : World} (h : AllTold w) {x : Write} (hx : CalmOn w x) : AllTold (w.apply x) := by
  intro runId d hd
  cases x with
  | run id r =>
    simp only [World.apply, Dict.get_set] at hd
    split at hd
    · cases hd
      exact told_create r
    · exact h runId d hd
  | on id c drawsId =>
    simp only [World.apply, get_modifyKey] at hd
    split at hd
    · obtain ⟨d', hd', rfl⟩ := Option.map_eq_some_iff.mp hd
      exact (h id d' hd').apply (hx d' hd')
    · exact h runId d hd
  | _ => exact h runId d hd

/-! ### Calm programs -/

/-- Wherever the program starts, its writes are calm. -/
def Calms {α : Type} (m : Prog α) : Prop := ∀ s, Writes CalmOn m s

variable {α β : Type} {m : Prog α} {k : α → Prog β} {runId : ℕ}

theorem calms_bind (hm : Calms m) (hk : ∀ a, Calms (k a)) : Calms (m >>= k) :=
  fun s => writes_bind (hm s) fun a _ => hk a _

theorem calms_pure (a : α) : Calms (pure a : Prog α) := fun _ => writes_pure a

theorem calms_raise (f : Fault) : Calms (raise f : Prog α) := fun _ => writes_raise f

theorem calms_check (r : Except Fault α) : Calms (check r : Prog α) := fun _ => writes_check r

theorem calms_read_bind {k : World → Prog β} (hk : ∀ w, Calms (k w)) : Calms (read >>= k) :=
  fun s => writes_read_bind (hk s s)

theorem calms_write {x : Write} (hx : ∀ w, CalmOn w x) : Calms (write x) := fun s => writes_write (hx s)

theorem calms_newId : Calms newId :=
  calms_read_bind fun _ => calms_bind (calms_write fun _ => trivial) fun _ => calms_pure _

theorem calms_find : Calms (find runId) := by
  refine calms_read_bind fun w => ?_
  cases w.runs.get runId with
  | some d => exact calms_pure d
  | none => exact calms_raise _

theorem calms_change {c : Change} (hc : ∀ d, Calm d c) : Calms (change runId c) :=
  calms_bind calms_find fun _ => calms_bind (calms_write fun _ d _ => hc d) fun _ => calms_pure _

theorem calms_changeWithId {c : ℕ → Change} (hc : ∀ d id, Calm d (c id)) : Calms (changeWithId runId c) :=
  calms_bind calms_find fun _ => calms_read_bind fun _ =>
    calms_bind (calms_write fun _ d _ => hc d _) fun _ => calms_pure _

theorem calms_updateRun (p : RunPatch) (expected : Option ℕ) (bump : Bool) : Calms (updateRun runId p expected bump) :=
  calms_bind calms_find fun _ => calms_bind (calms_check _) fun _ =>
    calms_bind (calms_change fun _ => trivial) fun _ => calms_pure _

theorem calms_insert {ι : Type} (resource : String) (items : RunData → List ι) (key : ι → ℕ) {wrap : ι → Change}
    (item : ι) (hc : ∀ d, Calm d (wrap item)) : Calms (insert runId resource items key wrap item) := by
  refine calms_bind calms_find fun d => ?_
  split
  · exact calms_raise _
  · exact calms_bind (calms_change hc) fun _ => calms_pure _

theorem calms_emit (run : Run) {payload : Payload} (h : payload.stage = none) : Calms (emit runId run payload) := by
  refine calms_bind calms_newId fun _ => calms_bind (calms_bind (calms_change fun d => ?_) fun _ => calms_pure _) fun _ =>
    calms_updateRun _ _ _
  intro phase hphase
  rw [h] at hphase
  cases hphase

/-- An early stage is told of once. -/
theorem calms_completeStage (run : Run) {phase : Phase} (h : phase = .ingest ∨ phase = .profile) :
    Calms (completeStage runId run phase) := by
  intro s
  refine writes_bind (calms_find s) fun d hd => ?_
  have hget : s.runs.get runId = some d := by
    unfold find at hd
    rw [read_bind] at hd
    cases hrun : s.runs.get runId with
    | none => rw [hrun] at hd; cases hd
    | some d' => rw [hrun] at hd; cases hd; rfl
  have hfinal : (find runId).final s = s := by rw [final, find_writes, replay_nil]
  rw [hfinal]
  split
  · exact writes_pure _
  · next hnew =>
    have hfresh : phase ∉ d.stages := by
      intro hmem
      obtain ⟨e, he, hstage⟩ := List.mem_filterMap.mp hmem
      refine hnew (List.any_eq_true.mpr ⟨e, he, decide_eq_true ?_⟩)
      cases hpayload : e.payload <;> simp_all [Payload.stage]
    unfold Writes
    rw [emit_eq hget]
    refine ⟨trivial, fun d' hd' => ?_, fun _ _ => trivial, trivial⟩
    cases hget.symm.trans hd'
    rintro _ ⟨⟩
    exact ⟨h, hfresh⟩

theorem calms_commitOutput (run : Run) (o : Output) : Calms (commitOutput runId run o) :=
  calms_bind calms_newId fun _ => calms_bind (calms_insert _ _ _ _ fun _ => trivial) fun _ =>
    calms_bind (calms_emit _ rfl) fun _ => calms_bind (calms_updateRun _ _ _) fun _ => calms_pure _

theorem calms_createCommand (type : CommandType) (status : CommandStatus) : Calms (createCommand runId type status) :=
  calms_bind (calms_changeWithId fun _ _ => trivial) fun _ => calms_pure _

/-- The result comes to a run that has none. -/
theorem calms_finalizeRunWithResult (resultId : Option ℕ) (outcome : Outcome) (code : Option String) (p : RunPatch)
    {events : List Payload} (expected : Option ℕ) (h : events.filterMap Payload.stage = [] ∨
      events.filterMap Payload.stage = [.plan, .train, .evaluate, .package]) :
    Calms (finalizeRunWithResult runId resultId outcome code p events expected) := by
  intro s
  cases hd : s.runs.get runId with
  | none =>
    refine writes_bind (calms_find s) fun d hfound => ?_
    unfold find at hfound
    rw [read_bind, hd] at hfound
    cases hfound
  | some d =>
    by_cases hopen : d.result = none
    · rcases finalizeRunWithResult_cases (by rw [hd]; rfl) resultId outcome code p events expected with
        ⟨e, he⟩ | ⟨run, result, he⟩
      · rw [Writes, he]
        trivial
      · rw [Writes, he]
        refine ⟨fun d' hd' => ?_, trivial⟩
        cases hd.symm.trans hd'
        exact ⟨hopen, h⟩
    · obtain ⟨e, he⟩ := finalizeRunWithResult_closed hd (Option.isSome_iff_ne_none.mpr hopen) resultId outcome code p
        events expected
      rw [Writes, he]
      trivial

theorem calms_supersedePackets (packets : List DecisionPacket) : Calms (supersedePackets runId packets) := by
  induction packets with
  | nil => exact calms_pure _
  | cons p rest ih =>
    unfold supersedePackets
    split
    · exact calms_bind (calms_change fun _ => trivial) fun _ => ih
    · exact ih

theorem calms_act (d : RunData) (c : Control) : Calms (c.act runId d) := by
  have hswitch : ∀ status actions, Calms (switchStatus runId d.run status actions) := fun status actions =>
    calms_bind (calms_updateRun _ _ _) fun run => calms_emit run rfl
  cases c with
  | pause => exact hswitch _ _
  | resume =>
    show Calms (ite _ _ _)
    split
    · exact hswitch _ _
    · exact hswitch _ _
  | cancel =>
    exact calms_bind (calms_supersedePackets _) fun _ => calms_bind calms_newId fun _ =>
      calms_finalizeRunWithResult _ _ _ _ _ (.inl rfl)

theorem calms_ownedRun (tenantId : String) : Calms (ownedRun tenantId runId) :=
  calms_read_bind fun _ => calms_check _

theorem calms_createRun (tenantId : String) (request : RunRequest) (admitted : Except Problem Unit) :
    Calms (createRun tenantId request admitted) :=
  calms_read_bind fun _ => calms_bind (calms_check _) fun _ => calms_bind (calms_check _) fun _ =>
    calms_bind (calms_check _) fun _ => calms_bind calms_newId fun _ => calms_bind (calms_write fun _ => trivial) fun _ =>
    calms_bind (calms_updateRun _ _ _) fun _ => calms_bind (calms_completeStage _ (.inl rfl)) fun _ =>
    calms_bind (calms_emit _ rfl) fun _ => calms_bind (calms_commitOutput _ _) fun _ =>
    calms_bind (calms_completeStage _ (.inr rfl)) fun _ => calms_bind calms_newId fun _ => calms_bind calms_newId fun _ =>
    calms_bind (calms_updateRun _ _ _) fun _ => calms_bind (calms_insert _ _ _ _ fun _ => trivial) fun _ =>
    calms_bind (calms_emit _ rfl) fun _ => calms_bind (calms_emit _ rfl) fun _ => calms_pure _

theorem calms_answer (tenantId : String) (request : AnswerRequest) : Calms (answer tenantId runId request) := by
  refine calms_bind (calms_ownedRun tenantId) fun d => ?_
  cases d.packets.find? (·.waitSetId = request.waitSetId) with
  | none => exact calms_raise _
  | some packet =>
    refine calms_bind (calms_check _) fun _ => calms_bind (calms_check _) fun _ => calms_bind (calms_check _) fun _ => ?_
    refine calms_bind (calms_createCommand _ _) fun _ => calms_bind (calms_change fun _ => trivial) fun _ => ?_
    refine calms_bind (calms_updateRun _ _ _) fun _ => calms_bind (calms_emit _ rfl) fun _ => ?_
    refine calms_bind (calms_commitOutput _ _) fun _ => calms_bind calms_newId fun _ => calms_bind (calms_check _) fun _ => ?_
    have hstored : ∀ p, Calms (artifactStored runId p) := fun p =>
      calms_bind (calms_write fun _ => trivial) fun _ => calms_insert _ _ _ _ fun _ => trivial
    have hlink : ∀ outputId artifact, Calms (linkArtifact runId outputId artifact) := fun outputId artifact =>
      calms_bind (calms_change fun _ => trivial) fun _ => calms_pure _
    refine calms_bind (hstored _) fun _ => calms_bind (calms_commitOutput _ _) fun _ => calms_bind (hlink _ _) fun _ => ?_
    refine calms_bind calms_newId fun _ => calms_bind (calms_finalizeRunWithResult _ _ _ _ _ (.inr rfl)) fun _ => ?_
    exact calms_bind (calms_change fun _ => trivial) fun _ => calms_pure _

theorem calms_control (tenantId : String) (c : Control) (revision : Option ℕ) :
    Calms (control tenantId runId c revision) :=
  calms_bind (calms_ownedRun tenantId) fun _ => calms_bind (calms_check _) fun _ =>
    calms_bind (calms_createCommand _ _) fun _ => calms_bind (calms_act _ c) fun _ =>
    calms_bind (calms_change fun _ => trivial) fun _ => calms_pure _

theorem calms_prog (request : Request) : Calms request.prog := by
  cases request with
  | dataset tenantId => exact calms_bind calms_newId fun _ => calms_write fun _ => trivial
  | finalize request stored =>
    show Calms (ite _ _ _)
    split
    · exact calms_bind (calms_write fun _ => trivial) fun _ => calms_write fun _ => trivial
    · exact calms_raise _
  | createRun tenantId request admitted => exact calms_createRun tenantId request admitted
  | answer tenantId runId request => exact calms_answer tenantId request
  | control tenantId runId c revision => exact calms_control tenantId c revision

theorem told_step {w w' : World} {l : Request × Option ℕ} (h : AllTold w) (hstep : step w l = some w') : AllTold w' := by
  obtain ⟨request, cut⟩ := l
  have hkeeps : ∀ w x, AllTold w → CalmOn w x → AllTold (Replay.apply w x) := fun _ _ hw hx => hw.apply hx
  cases cut with
  | none =>
    cases hstep
    exact (calms_prog request w).final hkeeps h
  | some n =>
    cases hstep
    exact (calms_prog request w).cut hkeeps h n

theorem told_run {w : World} {ls : List (Request × Option ℕ)} (h : Runs.Run step Runs.Free .empty ls w) : AllTold w :=
  h.invariant (fun _ _ _ hw _ hstep => told_step hw hstep) fun _ _ hd => by cases hd

end AutomlApi.Workflow.Synthetic
