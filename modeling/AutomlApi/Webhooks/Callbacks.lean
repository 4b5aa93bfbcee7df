import AutomlApi.Library.Integers
import AutomlApi.Library.PyValues
import AutomlApi.Webhooks.Data
import AutomlApi.Workflow.Outputs
import AutomlApi.Workflow.Synthetic

/-! The callback that goes out with an event that ends a stage or a run: a projection of the
event, taken again at every attempt to deliver it. What the workflows write into their events
decides all of it, and so it says the same at every attempt. -/

namespace AutomlApi.StageCallbacks

open Webhooks (Datetime callbackStageNames)
open Workflow (Phase Payload RunStatus)

/-! ### The projection -/

/-- What the projection uses of Python, and of how the model of a callback reads a value. -/
structure Library where
  /-- `str(value)`. -/
  str : PyValue → String
  lower : String → String
  text : PyValue → Option String
  integer : PyValue → Option ℤ
  /-- The time that a value is read as, as it is written again. -/
  datetime : PyValue → Option String

inductive Fault where
  | key (name : String)
  | validation (field : String)
  deriving DecidableEq

/-- `StageCallbackPayload`. -/
structure StageCallback where
  schemaVersion : String
  toolname : String
  runId : String
  eventId : String
  seq : ℤ
  occurredAt : String
  stage : String
  states : String
  nextStage : Bool
  nextStageName : Option String
  reason : Option String
  deriving DecidableEq

def text (s : String) : PyValue := .scalar (.str s)

def bool (b : Bool) : PyValue := .scalar (.bool b)

def optional {α : Type} (f : α → PyValue) : Option α → PyValue
  | none => .scalar .none
  | some a => f a

/-- `a or b`. -/
def orElse (a b : PyValue) : PyValue := if a.truthy then a else b

variable (lib : Library)

/-- `_callback_reason`. -/
def callbackReason : PyValue → Option String
  | .scalar .none => none
  | value =>
    let normalized := lib.lower (String.ofList (Integers.strip (lib.str value).toList))
    if normalized = "" then none else some normalized

/-- What an event says of its stage. -/
structure Projection where
  states : String
  nextStage : Bool
  nextPhase : Option String
  reason : Option String

def projectStageCompleted (payload : Dict String PyValue) : Projection :=
  let nextPhase := match PyValue.lookup payload "next_phase" with
    | .scalar .none => none
    | raw => some (lib.str raw)
  let nextStage := match PyValue.lookup payload "next_stage_ready" with
    | .scalar .none => nextPhase.isSome
    | readiness => readiness.truthy
  let reason := callbackReason lib (PyValue.lookup payload "reason")
  ⟨"success", nextStage, nextPhase,
    if !nextStage && reason.isNone then
      some (if nextPhase.isNone then "workflow_completed" else "next_stage_blocked")
    else reason⟩

/-- The branches over the type of the event. -/
def project (eventType : String) (payload : Dict String PyValue) : Option Projection :=
  if eventType = "run.stage_completed.v1" then some (projectStageCompleted lib payload)
  else if eventType = "run.failed.v1" then
    some ⟨"failed", false, none, some ((callbackReason lib (PyValue.lookup payload "failure_code")).getD "stage_failed")⟩
  else if eventType = "run.canceled.v1" then some ⟨"canceled", false, none, some "user_canceled"⟩
  else none

/-- A field of the model, from the value that it is given. -/
def field {α : Type} (name : String) (read : PyValue → Option α) (value : PyValue) : Except Fault α :=
  (read value).elim (.error (.validation name)) .ok

/-- A key that the event has to have. -/
def item (event : Dict String PyValue) (key : String) : Except Fault PyValue :=
  (Dict.get event key).elim (.error (.key key)) .ok

/-- A stage that the model knows. -/
def knownStage (name : String) (stage : String) : Except Fault String :=
  if stage ∈ callbackStageNames.map Prod.snd then .ok stage else .error (.validation name)

def knownNext (nextPhase : Option String) : Except Fault (Option String) :=
  match Dict.get callbackStageNames (nextPhase.getD "") with
  | none => .ok none
  | some name => (knownStage "next_stage_name" name).map some

/-- The model of a callback on the values that are put together for it. -/
def validate (runId eventId seq occurredAt : PyValue) (stage : String) (p : Projection) : Except Fault StageCallback := do
  let runId ← field "run_id" lib.text runId
  let eventId ← field "event_id" lib.text eventId
  let seq ← field "seq" (fun value => (lib.integer value).filter (1 ≤ ·)) seq
  let occurredAt ← field "occurred_at" lib.datetime occurredAt
  let stage ← knownStage "stage" stage
  let nextStageName ← knownNext p.nextPhase
  pure ⟨"1.0", "automl", runId, eventId, seq, occurredAt, stage, p.states, p.nextStage, nextStageName, p.reason⟩

/-- `stage_callback_for_event`. -/
def stageCallbackForEvent (event : Dict String PyValue) (fallbackPhase : Option String) :
    Except Fault (Option StageCallback) :=
  let eventType := lib.str (orElse (PyValue.lookup event "type") (text ""))
  match PyValue.lookup event "payload" with
  | .dict payload =>
    let phase := lib.str (orElse (orElse (PyValue.lookup payload "phase") (optional text fallbackPhase)) (text ""))
    match Dict.get callbackStageNames phase with
    | none => .ok none
    | some stage =>
      match project lib eventType payload with
      | none => .ok none
      | some p => do
        let runId ← item event "run_id"
        let eventId ← item event "event_id"
        let seq ← item event "seq"
        let occurredAt ← item event "occurred_at"
        some <$> validate lib runId eventId seq occurredAt stage p
  | _ => .ok none

/-! ### What the workflows write -/

def phaseName : Phase → String
  | .ingest => "INGEST"
  | .profile => "PROFILE"
  | .plan => "PLAN"
  | .train => "TRAIN"
  | .evaluate => "EVALUATE"
  | .package => "PACKAGE"

def statusName : RunStatus → String
  | .queued => "QUEUED"
  | .running => "RUNNING"
  | .waitingUser => "WAITING_USER"
  | .waitingApproval => "WAITING_APPROVAL"
  | .paused => "PAUSED"
  | .terminal => "TERMINAL"

def eventType : Payload → String
  | .phaseChanged .. => "run.phase_changed.v1"
  | .stageCompleted _ => "run.stage_completed.v1"
  | .outputCommitted _ => "output.committed.v1"
  | .packetRequested _ => "decision_packet.requested.v1"
  | .approvalRequested _ => "approval.requested.v1"
  | .completed => "run.completed.v1"
  | .failed _ => "run.failed.v1"
  | .canceled => "run.canceled.v1"

/-- `progress_by_phase`. -/
def progressByPhase : Phase → ℚ
  | .ingest => 10
  | .profile => 30
  | .plan => 45
  | .train => 75
  | .evaluate => 90
  | .package => 100

/-- The payload of `_complete_stage`, and of the events that end a run with success. -/
def completedPayload (completedAt : String) (refs : List PyValue) (phase : Phase) (nextPhase : Option Phase)
    (nextStageReady : Option Bool) (reason : Option String) : Dict String PyValue :=
  [("phase", text (phaseName phase)), ("status", text "COMPLETED"), ("completed_at", text completedAt),
    ("progress_percent", .scalar (.float (.finite (progressByPhase phase)))), ("output_refs", .list refs),
    ("next_phase", optional (fun p => text (phaseName p)) nextPhase),
    ("next_stage_ready", bool (nextStageReady.getD nextPhase.isSome)), ("reason", optional text reason)]

/-- The payloads that the workflows give to the events of a type. -/
inductive Produced : Payload → Dict String PyValue → Prop
  | phaseChanged (previous phase : Phase) (status : RunStatus) :
    Produced (.phaseChanged phase status)
      [("previous_phase", text (phaseName previous)), ("phase", text (phaseName phase)),
        ("status", text (statusName status))]
  | ingest (completedAt : String) (refs : List PyValue) :
    Produced (.stageCompleted .ingest) (completedPayload completedAt refs .ingest (some .profile) none none)
  /-- The synthetic workflow always asks. -/
  | profile (completedAt : String) (refs : List PyValue) (questions : Bool) :
    Produced (.stageCompleted .profile) (completedPayload completedAt refs .profile (some .plan) (some !questions)
      (if questions then some "USER_INPUT_REQUIRED" else none))
  | plan (completedAt : String) (refs : List PyValue) :
    Produced (.stageCompleted .plan) (completedPayload completedAt refs .plan (some .train) none none)
  | train (completedAt : String) (refs : List PyValue) :
    Produced (.stageCompleted .train) (completedPayload completedAt refs .train (some .evaluate) none none)
  | evaluate (completedAt : String) (refs : List PyValue) :
    Produced (.stageCompleted .evaluate) (completedPayload completedAt refs .evaluate (some .package) none none)
  /-- At the end of the training, of an approval, and of a synthetic run. -/
  | package (completedAt : String) (refs : List PyValue) :
    Produced (.stageCompleted .package)
      (completedPayload completedAt refs .package none (some false) (some "WORKFLOW_COMPLETED"))
  | outputCommitted (id : ℕ) (output : PyValue) : Produced (.outputCommitted id) [("output", output)]
  | packetRequested (id : ℕ) (packetId waitSetId href : String) :
    Produced (.packetRequested id)
      [("decision_packet_id", text packetId), ("wait_set_id", text waitSetId), ("href", text href)]
  | approvalRequested (id : ℕ) (approvalId href : String) :
    Produced (.approvalRequested id) [("approval_id", text approvalId), ("href", text href)]
  | completed (href : String) : Produced .completed [("outcome", text "SUCCEEDED"), ("result_href", text href)]
  | failed (code : String) (retriable : Bool) (href : String) (phase : Phase) :
    Produced (.failed code)
      [("outcome", text "FAILED"), ("failure_code", text code), ("retriable", bool retriable),
        ("result_href", text href), ("phase", text (phaseName phase))]
  | canceled (href : String) (phase : Phase) :
    Produced .canceled [("outcome", text "CANCELED"), ("result_href", text href), ("phase", text (phaseName phase))]


/-- A date of the calendar. -/
def IsDate (t : Datetime) : Prop := 0 < t.year ∧ 0 < t.month ∧ 0 < t.day ∧ t.day ≤ Datetime.daysInMonth t.year t.month

/-- What is documented of Python and of the models. -/
structure Documented : Prop where
  str : ∀ s, lib.str (text s) = s
  text : ∀ s, lib.text (text s) = some s
  integer : ∀ i, lib.integer (.scalar (.int i)) = some i
  datetime : ∀ t, IsDate t → (lib.datetime (StageCallbacks.text t.iso)).isSome

/-- An event as the store keeps it for an event of a run. -/
structure Stored (runId : String) (e : Workflow.Event) (event : Dict String PyValue) : Prop where
  runId : Dict.get event "run_id" = some (text runId)
  eventId : ∃ id, Dict.get event "event_id" = some (text id)
  seq : Dict.get event "seq" = some (.scalar (.int e.seq))
  occurredAt : ∃ t, IsDate t ∧ Dict.get event "occurred_at" = some (text t.iso)
  type : Dict.get event "type" = some (text (eventType e.payload))
  payload : ∃ payload, Dict.get event "payload" = some (.dict payload) ∧ Produced e.payload payload

/-! ### What a callback says -/

/-- The callback of an event, if the projection comes to one. -/
def callback (event : Dict String PyValue) : Option StageCallback :=
  match stageCallbackForEvent lib event none with
  | .ok c => c
  | .error _ => none

/-- The events that have a callback. -/
def ending : List String := ["run.stage_completed.v1", "run.failed.v1", "run.canceled.v1"]

/-- The callback of an event is there, is one for every phase that the run may be in, and
does not contradict itself. -/
structure Coherent (event : Dict String PyValue) : Prop where
  /-- Nothing is raised, and the phase that the run is in makes no difference. -/
  total : ∀ fallback, stageCallbackForEvent lib event fallback = .ok (callback lib event)
  ends : (callback lib event).isSome ↔ ∃ type ∈ ending, Dict.get event "type" = some (text type)
  states : ∀ c ∈ callback lib event,
    (c.states = "success" ↔ Dict.get event "type" = some (text "run.stage_completed.v1")) ∧
      (c.states = "failed" ↔ Dict.get event "type" = some (text "run.failed.v1")) ∧
      (c.states = "canceled" ↔ Dict.get event "type" = some (text "run.canceled.v1"))
  named : ∀ c ∈ callback lib event, c.nextStage = true → c.nextStageName.isSome
  reasoned : ∀ c ∈ callback lib event, c.nextStage = false → c.reason.isSome

variable {lib} {runId : String} {e : Workflow.Event} {event payload : Dict String PyValue}

def stageName : Phase → String
  | .ingest => "data_read"
  | .profile => "data_analysis"
  | .plan => "task_recognition"
  | .train => "model_training"
  | .evaluate => "model_evaluation"
  | .package => "result_package"

theorem get_phaseName (phase : Phase) : Dict.get callbackStageNames (phaseName phase) = some (stageName phase) := by
  cases phase <;> rfl

theorem phaseName_ne (phase : Phase) : phaseName phase ≠ "" := by cases phase <;> decide

theorem orElse_text {s : String} (h : s ≠ "") (v : PyValue) : orElse (text s) v = text s := by
  simp [orElse, text, PyValue.truthy, h]

theorem lookup_of_get {fields : Dict String PyValue} {key : String} {v : PyValue} (h : Dict.get fields key = some v) :
    PyValue.lookup fields key = v := by rw [PyValue.lookup, h]; rfl

theorem eventType_ne (p : Payload) : eventType p ≠ "" := by cases p <;> simp [eventType]

/-- An event of another type has no callback. -/
theorem project_of_other {type : String} (h : type ∉ ending) (payload : Dict String PyValue) :
    project lib type payload = none := by
  simp only [ending, List.mem_cons, List.not_mem_nil, or_false, not_or] at h
  rw [project, if_neg h.1, if_neg h.2.1, if_neg h.2.2]

/-- What a stored event comes to: its payload decides, and nothing else where that names a phase. -/
theorem stageCallbackForEvent_eq (hlib : Documented lib) (h : Stored runId e event)
    (hpayload : Dict.get event "payload" = some (.dict payload)) (fallback : Option String) {phase : Phase}
    (hphase : Dict.get payload "phase" = some (text (phaseName phase))) {p : Projection}
    (hproject : project lib (eventType e.payload) payload = some p) :
    stageCallbackForEvent lib event fallback = (do
      let runId ← item event "run_id"
      let eventId ← item event "event_id"
      let seq ← item event "seq"
      let occurredAt ← item event "occurred_at"
      some <$> validate lib runId eventId seq occurredAt (stageName phase) p) := by
  unfold stageCallbackForEvent
  rw [lookup_of_get h.type, lookup_of_get hpayload, orElse_text (eventType_ne _), hlib.str]
  dsimp only
  rw [lookup_of_get hphase, orElse_text (phaseName_ne phase), orElse_text (phaseName_ne phase), hlib.str,
    get_phaseName, hproject]

/-- The values that a stored event gives to the model of a callback are good. -/
theorem validate_stored (hlib : Documented lib) (h : Stored runId e event) (hseq : 1 ≤ e.seq) (phase : Phase)
    {p : Projection} {next : Option Phase} (hnext : p.nextPhase = next.map phaseName) :
    ∃ c : StageCallback, (do
      let runId ← item event "run_id"
      let eventId ← item event "event_id"
      let seq ← item event "seq"
      let occurredAt ← item event "occurred_at"
      some <$> validate lib runId eventId seq occurredAt (stageName phase) p) = .ok (some c) ∧
      c.stage = stageName phase ∧ c.states = p.states ∧ c.nextStage = p.nextStage ∧
      c.nextStageName = next.map stageName ∧ c.reason = p.reason := by
  obtain ⟨id, hid⟩ := h.eventId
  obtain ⟨t, ht, hoccurred⟩ := h.occurredAt
  obtain ⟨time, htime⟩ := Option.isSome_iff_exists.mp (hlib.datetime t ht)
  have hknown : ∀ name phase, knownStage name (stageName phase) = .ok (stageName phase) := fun name phase => by
    refine if_pos ?_
    cases phase <;> decide
  have hinteger : (lib.integer (.scalar (.int e.seq))).filter (1 ≤ ·) = some (e.seq : ℤ) := by
    rw [hlib.integer, Option.filter_some, if_pos (by simpa using hseq)]
  have hnamed : knownNext p.nextPhase = .ok (next.map stageName) := by
    rw [hnext]
    cases next with
    | none => rfl
    | some phase =>
      rw [knownNext, Option.map_some, Option.getD_some, get_phaseName]
      dsimp only
      rw [hknown]
      rfl
  let c : StageCallback :=
    ⟨"1.0", "automl", runId, id, e.seq, time, stageName phase, p.states, p.nextStage, next.map stageName, p.reason⟩
  have hfield : ∀ {α : Type} (name : String) (read : PyValue → Option α) (v : PyValue) {a : α}, read v = some a →
      field name read v = .ok a := fun name read v a ha => by rw [field, ha]; rfl
  have hvalidate : validate lib (text runId) (text id) (.scalar (.int e.seq)) (text t.iso) (stageName phase) p = .ok c := by
    unfold validate
    rw [hfield _ _ _ (hlib.text runId), hfield _ _ _ (hlib.text id), hfield _ _ _ hinteger, hfield _ _ _ htime, hknown,
      hnamed]
    rfl
  have hitem : ∀ {key : String} {v : PyValue}, Dict.get event key = some v → item event key = .ok v := fun hv => by
    rw [item, hv]; rfl
  refine ⟨c, ?_, rfl, rfl, rfl, rfl, rfl⟩
  rw [hitem h.runId, hitem hid, hitem h.seq, hitem hoccurred]
  exact congrArg (Except.map some) hvalidate

/-- The states of the callback of an event. -/
def statesOf : Payload → String
  | .stageCompleted _ => "success"
  | .failed _ => "failed"
  | .canceled => "canceled"
  | _ => ""

theorem projectStageCompleted_completed (hlib : Documented lib) (completedAt : String) (refs : List PyValue)
    (phase : Phase) (next : Option Phase) (ready : Option Bool) (reason : Option String) :
    let p := projectStageCompleted lib (completedPayload completedAt refs phase next ready reason)
    p.states = "success" ∧ p.nextPhase = next.map phaseName ∧ p.nextStage = ready.getD next.isSome ∧
      (p.nextStage = false → p.reason.isSome) := by
  refine ⟨rfl, ?_, rfl, ?_⟩
  · cases next with
    | none => rfl
    | some next => exact congrArg some (hlib.str _)
  · intro hnot
    unfold projectStageCompleted at hnot ⊢
    dsimp only at hnot ⊢
    rw [hnot]
    split
    · rfl
    · next hsome => simpa [Option.isSome_iff_ne_none] using hsome

/-- What the workflows write into the events that have a callback. -/
theorem project_produced (hlib : Documented lib) {p : Payload} (h : Produced p payload) (hend : eventType p ∈ ending) :
    ∃ (phase : Phase) (projection : Projection) (next : Option Phase), Dict.get payload "phase" = some (text (phaseName phase)) ∧
      project lib (eventType p) payload = some projection ∧ projection.states = statesOf p ∧
      projection.nextPhase = next.map phaseName ∧ (projection.nextStage = true → next.isSome) ∧
      (projection.nextStage = false → projection.reason.isSome) ∧ ∀ stage ∈ p.stage, phase = stage := by
  -- a stage is ready to be followed only by one that is named
  have hstage : ∀ (completedAt : String) (refs : List PyValue) (stage : Phase) (next : Option Phase)
      (ready : Option Bool) (reason : Option String), (ready.getD next.isSome = true → next.isSome) →
      ∃ (phase : Phase) (projection : Projection) (next' : Option Phase),
        Dict.get (completedPayload completedAt refs stage next ready reason) "phase" = some (text (phaseName phase)) ∧
        project lib "run.stage_completed.v1" (completedPayload completedAt refs stage next ready reason) = some projection ∧
        projection.states = "success" ∧ projection.nextPhase = next'.map phaseName ∧
        (projection.nextStage = true → next'.isSome) ∧ (projection.nextStage = false → projection.reason.isSome) ∧
        ∀ stage' ∈ some stage, phase = stage' := by
    intro completedAt refs stage next ready reason hready
    obtain ⟨hstates, hnext, hnextStage, hreason⟩ :=
      projectStageCompleted_completed hlib completedAt refs stage next ready reason
    exact ⟨stage, _, next, rfl, if_pos rfl, hstates, hnext, fun h => hready (hnextStage ▸ h), hreason,
      fun _ h => Option.some.inj h⟩
  cases h with
  | phaseChanged | outputCommitted | packetRequested | approvalRequested | completed => simp [ending, eventType] at hend
  | ingest completedAt refs => exact hstage _ _ _ _ _ _ fun _ => rfl
  | profile completedAt refs questions => exact hstage _ _ _ _ _ _ fun _ => rfl
  | plan completedAt refs => exact hstage _ _ _ _ _ _ fun _ => rfl
  | train completedAt refs => exact hstage _ _ _ _ _ _ fun _ => rfl
  | evaluate completedAt refs => exact hstage _ _ _ _ _ _ fun _ => rfl
  | package completedAt refs => exact hstage _ _ _ _ _ _ nofun
  | failed code retriable href phase =>
    exact ⟨phase, _, none, rfl, rfl, rfl, rfl, nofun, fun _ => rfl, nofun⟩
  | canceled href phase =>
    exact ⟨phase, _, none, rfl, rfl, rfl, rfl, nofun, fun _ => rfl, nofun⟩

/-- What a stored event comes to. -/
theorem callback_stored (hlib : Documented lib) (h : Stored runId e event) (hseq : 1 ≤ e.seq) :
    (eventType e.payload ∉ ending ∧ ∀ fallback, stageCallbackForEvent lib event fallback = .ok none) ∨
      (eventType e.payload ∈ ending ∧ ∃ c : StageCallback,
        (∀ fallback, stageCallbackForEvent lib event fallback = .ok (some c)) ∧ c.states = statesOf e.payload ∧
        (c.nextStage = true → c.nextStageName.isSome) ∧ (c.nextStage = false → c.reason.isSome) ∧
        ∀ stage ∈ e.payload.stage, c.stage = stageName stage) := by
  obtain ⟨payload, hpayload, hproduced⟩ := h.payload
  by_cases hend : eventType e.payload ∈ ending
  · obtain ⟨phase, p, next, hphase, hproject, hstates, hnext, hnamed, hreasoned, hstage⟩ :=
      project_produced hlib hproduced hend
    obtain ⟨c, hc, hcstage, hcstates, hcnext, hcname, hcreason⟩ := validate_stored hlib h hseq phase hnext
    refine .inr ⟨hend, c, fun fallback => ?_, hcstates.trans hstates, ?_, ?_, fun stage hs => ?_⟩
    · exact (stageCallbackForEvent_eq hlib h hpayload fallback hphase hproject).trans hc
    · rw [hcnext, hcname, Option.isSome_map]
      exact hnamed
    · rw [hcnext, hcreason]
      exact hreasoned
    · rw [hcstage, hstage stage hs]
  · refine .inl ⟨hend, fun fallback => ?_⟩
    unfold stageCallbackForEvent
    rw [lookup_of_get h.type, lookup_of_get hpayload, orElse_text (eventType_ne _), hlib.str]
    dsimp only
    rw [project_of_other hend]
    split <;> rfl

theorem coherent_stored (hlib : Documented lib) (h : Stored runId e event) (hseq : 1 ≤ e.seq) : Coherent lib event := by
  have htype : ∀ type, Dict.get event "type" = some (text type) ↔ eventType e.payload = type := fun type => by
    rw [h.type]
    simp [text]
  rcases callback_stored hlib h hseq with ⟨hend, hnone⟩ | ⟨hend, c, hc, hstates, hnamed, hreasoned, -⟩
  · have hcallback : callback lib event = none := by rw [callback, hnone]
    constructor
    · rw [hcallback]; exact hnone
    · rw [hcallback]
      simp [htype, hend]
    all_goals simp [hcallback]
  · have hcallback : callback lib event = some c := by rw [callback, hc]
    constructor
    · rw [hcallback]; exact hc
    · rw [hcallback]
      simp [htype, hend]
    · rw [hcallback]
      rintro _ ⟨⟩
      simp only [htype, hstates]
      cases hp : e.payload <;> simp_all [statesOf, eventType, ending]
    · rw [hcallback]
      rintro _ ⟨⟩
      exact hnamed
    · rw [hcallback]
      rintro _ ⟨⟩
      exact hreasoned

/-! ### The projection of the dispatcher -/

/-- The event has the values that the dispatcher reads of it. -/
structure Holds (runId : String) (e : Webhooks.Event) (event : Dict String PyValue) : Prop where
  runId : Dict.get event "run_id" = some (text runId)
  eventId : Dict.get event "event_id" = some (text e.eventId)
  seq : Dict.get event "seq" = some (.scalar (.int e.seq))
  occurredAt : Dict.get event "occurred_at" = some (text e.occurredAt.iso)
  type : Dict.get event "type" = some (text e.type)
  payload : ∃ payload, Dict.get event "payload" = some (.dict payload) ∧
    PyValue.lookup payload "phase" = optional text e.payload.phase ∧
    PyValue.lookup payload "next_phase" = optional text e.payload.nextPhase ∧
    PyValue.lookup payload "next_stage_ready" = optional bool e.payload.nextStageReady ∧
    PyValue.lookup payload "reason" = optional text e.payload.reason ∧
    PyValue.lookup payload "failure_code" = optional text e.payload.failureCode

def ofCallback (c : Webhooks.Callback) : StageCallback :=
  ⟨c.schemaVersion, c.toolname, c.runId, c.eventId, c.seq, c.occurredAt, c.stage, c.states, c.nextStage, c.nextStageName,
    c.reason⟩

section Dispatcher

variable {settings : Webhooks.Settings} {sent : Webhooks.Event}

theorem callbackReason_optional (hlib : Documented lib)
    (hnormalize : ∀ s, settings.normalize s = lib.lower (String.ofList (Integers.strip s.toList))) (reason : Option String) :
    callbackReason lib (optional text reason) = Webhooks.callbackReason settings reason := by
  cases reason with
  | none => rfl
  | some s =>
    have hstr : lib.str (optional text (some s)) = s := hlib.str s
    rw [Webhooks.callbackReason, Option.map_some, Option.filter_some, hnormalize]
    show (if lib.lower (String.ofList (Integers.strip (lib.str (optional text (some s))).toList)) = "" then none
      else some (lib.lower (String.ofList (Integers.strip (lib.str (optional text (some s))).toList)))) = _
    rw [hstr]
    by_cases h : lib.lower (String.ofList (Integers.strip s.toList)) = "" <;> simp [h]

/-- The branches of both agree. -/
theorem project_typed (hlib : Documented lib)
    (hnormalize : ∀ s, settings.normalize s = lib.lower (String.ofList (Integers.strip s.toList))) (type : String)
    {p : Webhooks.Payload} (hnext : PyValue.lookup payload "next_phase" = optional text p.nextPhase)
    (hready : PyValue.lookup payload "next_stage_ready" = optional bool p.nextStageReady)
    (hreason : PyValue.lookup payload "reason" = optional text p.reason)
    (hcode : PyValue.lookup payload "failure_code" = optional text p.failureCode) :
    project lib type payload =
      (Webhooks.callbackOutcome settings type p).map fun o => ⟨o.1, o.2.1, o.2.2.1, o.2.2.2⟩ := by
  have hstr : ∀ s, lib.str (.scalar (.str s)) = s := hlib.str
  unfold project Webhooks.callbackOutcome
  rw [hcode, callbackReason_optional hlib hnormalize]
  split
  · unfold projectStageCompleted
    rw [hnext, hready, hreason, callbackReason_optional hlib hnormalize]
    cases hn : p.nextPhase <;> cases hr : p.nextStageReady with
    | none => cases Webhooks.callbackReason settings p.reason <;> simp [optional, text, hstr]
    | some ready =>
      cases ready <;> cases Webhooks.callbackReason settings p.reason <;>
        simp [optional, text, bool, PyValue.truthy, hstr]
  · split
    · rfl
    · split <;> rfl

theorem str_orElse_text (hlib : Documented lib) (s : String) : lib.str (orElse (text s) (text "")) = s := by
  by_cases hs : s = ""
  · subst hs
    exact hlib.str ""
  · rw [orElse_text hs, hlib.str]

/-- The phase of an event, or else the one that is asked for. -/
theorem str_orElse_optional (hlib : Documented lib) (phase fallback : Option String) :
    lib.str (orElse (orElse (optional text phase) (optional text fallback)) (text "")) =
      ((phase.filter (· ≠ "")).or fallback).getD "" := by
  have hother : lib.str (orElse (optional text fallback) (text "")) = fallback.getD "" := by
    cases fallback with
    | none => exact hlib.str ""
    | some s => exact str_orElse_text hlib s
  cases phase with
  | none => exact hother
  | some s =>
    by_cases hs : s = ""
    · subst hs
      exact hother
    · rw [optional, orElse_text hs, str_orElse_text hlib, Option.filter_some, if_pos (by simpa using hs)]
      rfl

/-- On the values that it reads, the dispatcher projects an event as the callbacks do. -/
theorem stageCallbackForEvent_dispatcher (hlib : Documented lib)
    (hnormalize : ∀ s, settings.normalize s = lib.lower (String.ofList (Integers.strip s.toList)))
    (htime : lib.datetime (text sent.occurredAt.iso) = some sent.occurredAt.iso) (h : Holds runId sent event)
    (fallback : Option String) :
    stageCallbackForEvent lib event fallback =
      ((Webhooks.stageCallbackForEvent settings runId sent fallback).map (Option.map ofCallback)).mapError
        fun _ => .validation "seq" := by
  obtain ⟨payload, hpayload, hphase, hnext, hready, hreason, hcode⟩ := h.payload
  have hitem : ∀ {key : String} {v : PyValue}, Dict.get event key = some v → item event key = .ok v := fun hv => by
    rw [item, hv]; rfl
  have hknown : ∀ {name phase stage : String}, Dict.get callbackStageNames phase = some stage →
      knownStage name stage = .ok stage := fun hget => if_pos (List.mem_map_of_mem (Dict.mem_of_get hget))
  unfold stageCallbackForEvent Webhooks.stageCallbackForEvent
  rw [lookup_of_get h.type, lookup_of_get hpayload, str_orElse_text hlib]
  dsimp only
  rw [hphase, str_orElse_optional hlib, project_typed hlib hnormalize sent.type hnext hready hreason hcode]
  generalize ((sent.payload.phase.filter (· ≠ "")).or fallback).getD "" = phase
  cases hstage : Dict.get callbackStageNames phase with
  | none => rfl
  | some stage =>
    cases Webhooks.callbackOutcome settings sent.type sent.payload with
    | none => rfl
    | some outcome =>
      obtain ⟨states, nextStage, nextPhase, reason⟩ := outcome
      have hnamed : knownNext nextPhase = .ok (Dict.get callbackStageNames (nextPhase.getD "")) := by
        unfold knownNext
        cases hname : Dict.get callbackStageNames (nextPhase.getD "") with
        | none => rfl
        | some name =>
          dsimp only
          rw [hknown hname]
          rfl
      rw [hitem h.runId, hitem h.eventId, hitem h.seq, hitem h.occurredAt]
      dsimp only [Option.map_some]
      show Except.map some (validate lib _ _ _ _ stage _) = _
      unfold validate
      rw [field, hlib.text, field, hlib.text, field, hlib.integer, field, htime, hknown hstage, hnamed]
      by_cases hseq : 1 ≤ sent.seq
      · rw [if_pos hseq, Option.filter_some, if_pos (by simpa using hseq)]
        rfl
      · rw [if_neg hseq, Option.filter_some, if_neg (by simpa using hseq)]
        rfl

end Dispatcher

/-! ### Over a run -/

/-- The stages for which an event of the log reports success. -/
def successes (lib : Library) (log : List (Dict String PyValue)) : List String :=
  ((log.filterMap (callback lib)).filter fun c => c.states = "success").map StageCallback.stage

theorem successes_stored (hlib : Documented lib) {events : List Workflow.Event} {log : List (Dict String PyValue)}
    (h : List.Forall₂ (Stored runId) events log) (hseq : ∀ e ∈ events, 1 ≤ e.seq) :
    successes lib log = (events.filterMap (·.payload.stage)).map stageName := by
  induction h with
  | nil => rfl
  | @cons e event events log hstored _ ih =>
    obtain ⟨hhead, htail⟩ := List.forall_mem_cons.mp hseq
    have hcons : successes lib (event :: log) = successes lib [event] ++ successes lib log := by
      simp [successes, ← List.filter_append, ← List.map_append, ← List.filterMap_append]
    have hevent : successes lib [event] = e.payload.stage.toList.map stageName := by
      rcases callback_stored hlib hstored hhead with ⟨hend, hnone⟩ | ⟨hend, c, hc, hstates, -, -, hstage⟩
      · have hcallback : callback lib event = none := by rw [callback, hnone]
        cases hp : e.payload <;> simp_all [successes, Payload.stage, ending, eventType]
      · have hcallback : callback lib event = some c := by rw [callback, hc]
        cases hp : e.payload <;> simp_all [successes, Payload.stage, ending, eventType, statesOf]
    rw [hcons, hevent, ih htail, ← List.map_append]
    cases hp : e.payload.stage <;> simp [hp]

/-- A world that the durable workflow or the synthetic one can come to. -/
def Reachable (w : Workflow.World) : Prop :=
  (∃ weave es s, Runs.Run (Workflow.System.step weave) Runs.Free Workflow.System.init es s ∧ s.world = w) ∨
    ∃ ls, Runs.Run Workflow.Synthetic.step Runs.Free .empty ls w

theorem stages_of_reachable {w : Workflow.World} (h : Reachable w) {id : ℕ} {d : Workflow.RunData}
    (hd : w.runs.get id = some d) :
    d.events.map Workflow.Event.seq = List.range' 1 d.events.length ∧ d.stages.Nodup := by
  rcases h with ⟨weave, es, s, hrun, rfl⟩ | ⟨ls, hrun⟩
  · have hsound := ((Workflow.System.inv_run hrun).sound.runs id d hd).1
    have hnodup : Phase.all.Nodup := by decide
    exact ⟨hsound.numbers, hnodup.sublist hsound.stages.sublist⟩
  · have htold := Workflow.Synthetic.told_run hrun id d hd
    exact ⟨htold.numbers, htold.once⟩

theorem exists_stored {events : List Workflow.Event} {log : List (Dict String PyValue)}
    (h : List.Forall₂ (Stored runId) events log) (hevent : event ∈ log) : ∃ e ∈ events, Stored runId e event := by
  induction h with
  | nil => cases hevent
  | @cons e x events log hstored _ ih =>
    rcases List.mem_cons.mp hevent with rfl | hevent
    · exact ⟨e, List.mem_cons_self, hstored⟩
    · obtain ⟨e', he', hstored'⟩ := ih hevent
      exact ⟨e', List.mem_cons_of_mem _ he', hstored'⟩

/-- Every event that a workflow appends has a callback that is the same at every attempt and
does not contradict itself, or none; and no stage is reported twice as a success. -/
theorem callbacks_coherent (hlib : Documented lib) {w : Workflow.World} (hw : Reachable w) {id : ℕ}
    {d : Workflow.RunData} (hd : w.runs.get id = some d) {log : List (Dict String PyValue)}
    (hlog : List.Forall₂ (Stored runId) d.events log) :
    (∀ event ∈ log, Coherent lib event) ∧ (successes lib log).Nodup := by
  obtain ⟨hnumbers, honce⟩ := stages_of_reachable hw hd
  have hseq : ∀ e ∈ d.events, 1 ≤ e.seq := fun e he => by
    have hmem : e.seq ∈ List.range' 1 d.events.length := hnumbers ▸ List.mem_map_of_mem he
    exact (List.mem_range'_1.mp hmem).1
  constructor
  · intro event hevent
    obtain ⟨e, he, hstored⟩ := exists_stored hlog hevent
    exact coherent_stored hlib hstored (hseq e he)
  · rw [successes_stored hlib hlog hseq]
    refine honce.map fun a b hab => ?_
    cases a <;> cases b <;> first | rfl | exact absurd hab (by decide)

/-! ### A run that succeeds -/

namespace Sent

/-- Python and the models on the values that the events have. -/
def library : Library where
  str
    | .scalar (.str s) => s
    | _ => ""
  lower s := String.ofList (s.toList.map Char.toLower)
  text
    | .scalar (.str s) => some s
    | _ => none
  integer
    | .scalar (.int i) => some i
    | _ => none
  datetime
    | .scalar (.str s) => some s
    | _ => none

theorem documented : Documented library := ⟨fun _ => rfl, fun _ => rfl, fun _ => rfl, fun _ _ => rfl⟩

def now : Datetime := .ofNumbers 2026 7 31 10 54 25 0

def payloadOf : Payload → Dict String PyValue
  | .phaseChanged phase status =>
    [("previous_phase", text (phaseName phase)), ("phase", text (phaseName phase)), ("status", text (statusName status))]
  | .stageCompleted .ingest => completedPayload now.iso [] .ingest (some .profile) none none
  | .stageCompleted .profile => completedPayload now.iso [] .profile (some .plan) (some !true) (some "USER_INPUT_REQUIRED")
  | .stageCompleted .plan => completedPayload now.iso [] .plan (some .train) none none
  | .stageCompleted .train => completedPayload now.iso [] .train (some .evaluate) none none
  | .stageCompleted .evaluate => completedPayload now.iso [] .evaluate (some .package) none none
  | .stageCompleted .package => completedPayload now.iso [] .package none (some false) (some "WORKFLOW_COMPLETED")
  | .outputCommitted _ => [("output", .dict [])]
  | .packetRequested _ => [("decision_packet_id", text "dpk_1"), ("wait_set_id", text "wts_1"), ("href", text "/v1")]
  | .approvalRequested _ => [("approval_id", text "apr_1"), ("href", text "/v1")]
  | .completed => [("outcome", text "SUCCEEDED"), ("result_href", text "/v1")]
  | .failed code =>
    [("outcome", text "FAILED"), ("failure_code", text code), ("retriable", bool false), ("result_href", text "/v1"),
      ("phase", text "INGEST")]
  | .canceled => [("outcome", text "CANCELED"), ("result_href", text "/v1"), ("phase", text "INGEST")]

theorem produced_payloadOf (p : Payload) : Produced p (payloadOf p) := by
  cases p with
  | phaseChanged phase status => exact .phaseChanged phase phase status
  | stageCompleted phase =>
    cases phase with
    | ingest => exact .ingest _ _
    | profile => exact .profile _ _ true
    | plan => exact .plan _ _
    | train => exact .train _ _
    | evaluate => exact .evaluate _ _
    | package => exact .package _ _
  | outputCommitted id => exact .outputCommitted id _
  | packetRequested id => exact .packetRequested id _ _ _
  | approvalRequested id => exact .approvalRequested id _ _
  | completed => exact .completed _
  | failed code => exact .failed code false _ .ingest
  | canceled => exact .canceled _ .ingest

def eventOf (e : Workflow.Event) : Dict String PyValue :=
  [("event_id", text "evt_1"), ("run_id", text "run_1"), ("seq", .scalar (.int e.seq)),
    ("occurred_at", text now.iso), ("type", text (eventType e.payload)), ("payload", .dict (payloadOf e.payload))]

theorem stored_eventOf (e : Workflow.Event) : Stored "run_1" e (eventOf e) where
  runId := rfl
  eventId := ⟨_, rfl⟩
  seq := rfl
  occurredAt := ⟨now, ⟨by decide, by decide, by decide, by decide⟩, rfl⟩
  type := rfl
  payload := ⟨_, rfl, produced_payloadOf e.payload⟩

theorem stored_events (events : List Workflow.Event) : List.Forall₂ (Stored "run_1") events (events.map eventOf) := by
  induction events with
  | nil => exact .nil
  | cons e events ih => exact .cons (stored_eventOf e) ih

end Sent

open Workflow in
open Worker.LocalExecutionWorker (standard) in
theorem callbacks_coherent_succeeded : ∃ w d, Reachable w ∧ w.runs.get 4 = some d ∧ d.stages = Phase.all ∧
    (∀ event ∈ d.events.map Sent.eventOf, Coherent Sent.library event) ∧
      (successes Sent.library (d.events.map Sent.eventOf)).Nodup := by
  have hrun : ((Runs.exec (System.step standard) Runs.Free System.init (System.wholeRun false)).bind fun s =>
      (s.world.runs.get 4).map RunData.stages) = some Phase.all := by
    decide +kernel
  obtain ⟨s, hs, hd⟩ := Option.bind_eq_some_iff.mp hrun
  obtain ⟨d, hd, hstages⟩ := Option.map_eq_some_iff.mp hd
  have hw : Reachable s.world := .inl ⟨standard, _, s, Runs.run_of_exec hs, rfl⟩
  exact ⟨s.world, d, hw, hd, hstages, callbacks_coherent Sent.documented hw hd (Sent.stored_events d.events)⟩

end AutomlApi.StageCallbacks
