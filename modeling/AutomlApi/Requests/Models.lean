import AutomlApi.Library.Json

/-! The bodies of the idempotent operations as the API has parsed them, and what
`model_dump` in JSON mode makes of them. A set is what a process iterates: its elements
in an order of the process's own. -/

namespace AutomlApi.Requests

open Json (Faithful Solid same_object)

/-- A Python set, with the order in which the process iterates it. -/
structure PySet (α : Type) where
  elements : List α
  nodup : elements.Nodup

/-- The same set. -/
def PySet.Same {α : Type} (s t : PySet α) : Prop := s.elements.Perm t.elements

theorem PySet.ext {α : Type} {s t : PySet α} (h : s.elements = t.elements) : s = t := by
  cases s; cases t; cases h; rfl

/-- A Python float. -/
inductive PyFloat where
  | finite (d : Decimal)
  | nan
  | infinity
  | negativeInfinity

def PyFloat.json : PyFloat → Json
  | finite d => .decimal d
  | nan => .scalar (.word .nan)
  | infinity => .scalar (.word .infinity)
  | negativeInfinity => .scalar (.word .negativeInfinity)

/-! ### Enumerations -/

inductive DatasetMediaType where
  | csv | parquet
  deriving DecidableEq

def DatasetMediaType.value : DatasetMediaType → String
  | csv => "text/csv"
  | parquet => "application/vnd.apache.parquet"

inductive TaskType where
  | binaryClassification | regression
  deriving DecidableEq

def TaskType.value : TaskType → String
  | binaryClassification => "BINARY_CLASSIFICATION"
  | regression => "REGRESSION"

inductive ProductionDeploy where
  | requireApproval | disabled
  deriving DecidableEq

def ProductionDeploy.value : ProductionDeploy → String
  | requireApproval => "REQUIRE_APPROVAL"
  | disabled => "DISABLED"

inductive RiskTier where
  | standard | highImpact
  deriving DecidableEq

def RiskTier.value : RiskTier → String
  | standard => "STANDARD"
  | highImpact => "HIGH_IMPACT"

inductive ApprovalDecision where
  | approve | requestChanges | reject
  deriving DecidableEq

def ApprovalDecision.value : ApprovalDecision → String
  | approve => "APPROVE"
  | requestChanges => "REQUEST_CHANGES"
  | reject => "REJECT"

inductive WebhookEventType where
  | all | phaseChanged | stageCompleted | progressUpdated | outputCommitted | packetRequested | approvalRequested
  | metricsUpdated | completed | failed | canceled | expired
  deriving DecidableEq

def WebhookEventType.value : WebhookEventType → String
  | all => "*"
  | phaseChanged => "run.phase_changed.v1"
  | stageCompleted => "run.stage_completed.v1"
  | progressUpdated => "run.progress_updated.v1"
  | outputCommitted => "output.committed.v1"
  | packetRequested => "decision_packet.requested.v1"
  | approvalRequested => "approval.requested.v1"
  | metricsUpdated => "experiment.metrics_updated.v1"
  | completed => "run.completed.v1"
  | failed => "run.failed.v1"
  | canceled => "run.canceled.v1"
  | expired => "run.expired.v1"

/-! ### Models -/

structure CreateDatasetRequest where
  name : String
  filename : String
  mediaType : DatasetMediaType
  sizeBytes : ℤ
  retentionDays : Option ℤ

def CreateDatasetRequest.modelDump (r : CreateDatasetRequest) : List (String × Json) :=
  [("name", .str r.name), ("filename", .str r.filename), ("media_type", .str r.mediaType.value),
    ("size_bytes", .int r.sizeBytes), ("retention_days", .option .int r.retentionDays)]

structure SignUploadPartsRequest where
  uploadId : String
  partNumbers : PySet ℤ

def SignUploadPartsRequest.modelDump (r : SignUploadPartsRequest) : List (String × Json) :=
  [("upload_id", .str r.uploadId), ("part_numbers", .list (r.partNumbers.elements.map .int))]

structure FinalizeDatasetPart where
  partNumber : ℤ
  etag : String

def FinalizeDatasetPart.modelDump (p : FinalizeDatasetPart) : Json :=
  .object [("part_number", .int p.partNumber), ("etag", .str p.etag)]

structure FinalizeDatasetRequest where
  uploadId : String
  parts : List FinalizeDatasetPart
  sha256 : String

def FinalizeDatasetRequest.modelDump (r : FinalizeDatasetRequest) : List (String × Json) :=
  [("upload_id", .str r.uploadId), ("parts", .list (r.parts.map FinalizeDatasetPart.modelDump)),
    ("sha256", .str r.sha256)]

inductive PositiveClass where
  | str (s : String)
  | int (i : ℤ)
  | bool (b : Bool)

def PositiveClass.json : PositiveClass → Json
  | str s => .str s
  | int i => .int i
  | bool b => .bool b

structure Objective where
  backendId : String
  targetColumn : Option String
  taskType : Option TaskType
  positiveClass : Option PositiveClass
  primaryMetric : Option String
  iidConfirmed : Option Bool
  businessContext : Option String

def Objective.modelDump (o : Objective) : Json :=
  .object [("backend_id", .str o.backendId), ("target_column", .option .str o.targetColumn),
    ("task_type", .option (.str ∘ TaskType.value) o.taskType),
    ("positive_class", .option PositiveClass.json o.positiveClass), ("primary_metric", .option .str o.primaryMetric),
    ("iid_confirmed", .option .bool o.iidConfirmed), ("business_context", .option .str o.businessContext)]

structure AutonomyPolicy where
  productionDeploy : ProductionDeploy

def AutonomyPolicy.modelDump (p : AutonomyPolicy) : Json :=
  .object [("mode", .str "GUIDED"), ("production_deploy", .str p.productionDeploy.value)]

structure RunPolicy where
  allowPii : Bool
  allowExternalLlm : Bool
  riskTier : RiskTier

def RunPolicy.modelDump (p : RunPolicy) : Json :=
  .object [("allow_pii", .bool p.allowPii), ("allow_external_llm", .bool p.allowExternalLlm),
    ("risk_tier", .str p.riskTier.value)]

structure RunBudget where
  maxTrials : ℤ
  maxComputeCredits : PyFloat
  maxWallTimeSeconds : ℤ
  maxLlmTokens : ℤ

def RunBudget.modelDump (b : RunBudget) : Json :=
  .object [("max_trials", .int b.maxTrials), ("max_compute_credits", b.maxComputeCredits.json),
    ("max_wall_time_seconds", .int b.maxWallTimeSeconds), ("max_llm_tokens", .int b.maxLlmTokens)]

structure CreateRunRequest where
  datasetVersionId : String
  objective : Objective
  autonomy : AutonomyPolicy
  policy : RunPolicy
  budget : RunBudget
  callbackUri : Option String
  callbackUrl : Option String
  webhookEndpointIds : PySet String

def CreateRunRequest.modelDump (r : CreateRunRequest) : List (String × Json) :=
  [("dataset_version_id", .str r.datasetVersionId), ("objective", r.objective.modelDump),
    ("autonomy", r.autonomy.modelDump), ("policy", r.policy.modelDump), ("budget", r.budget.modelDump),
    ("callback_uri", .option .str r.callbackUri), ("callback_url", .option .str r.callbackUrl),
    ("webhook_endpoint_ids", .list (r.webhookEndpointIds.elements.map .str))]

/-- The value is any JSON; the parser has left no key twice in an object. -/
structure AnswerDecisionPacketItem where
  questionId : String
  value : Json
  keyed : value.Keyed

def AnswerDecisionPacketItem.modelDump (i : AnswerDecisionPacketItem) : Json :=
  .object [("question_id", .str i.questionId), ("value", i.value)]

structure AnswerDecisionPacketRequest where
  answers : List AnswerDecisionPacketItem

def AnswerDecisionPacketRequest.modelDump (r : AnswerDecisionPacketRequest) : List (String × Json) :=
  [("answers", .list (r.answers.map AnswerDecisionPacketItem.modelDump))]

structure DecideApprovalRequest where
  decision : ApprovalDecision
  reason : String
  evidenceVersion : ℤ

def DecideApprovalRequest.modelDump (r : DecideApprovalRequest) : List (String × Json) :=
  [("decision", .str r.decision.value), ("reason", .str r.reason), ("evidence_version", .int r.evidenceVersion)]

structure CreateWebhookEndpointRequest where
  url : String
  eventTypes : List WebhookEventType
  description : Option String

def CreateWebhookEndpointRequest.modelDump (r : CreateWebhookEndpointRequest) : List (String × Json) :=
  [("url", .str r.url), ("event_types", .list (r.eventTypes.map (.str ∘ WebhookEventType.value))),
    ("description", .option .str r.description)]

/-- The body of a request to an idempotent operation, which may have none. -/
inductive Body where
  | none
  | createDataset (r : CreateDatasetRequest)
  | signUploadParts (r : SignUploadPartsRequest)
  | finalizeDataset (r : FinalizeDatasetRequest)
  | createRun (r : CreateRunRequest)
  | answer (r : AnswerDecisionPacketRequest)
  | decideApproval (r : DecideApprovalRequest)
  | createWebhookEndpoint (r : CreateWebhookEndpointRequest)

def Body.json : Body → Json
  | none => .null
  | createDataset r => .object r.modelDump
  | signUploadParts r => .object r.modelDump
  | finalizeDataset r => .object r.modelDump
  | createRun r => .object r.modelDump
  | answer r => .object r.modelDump
  | decideApproval r => .object r.modelDump
  | createWebhookEndpoint r => .object r.modelDump

/-! ### The same body -/

/-- The same answers, with the values up to the order of keys. -/
def SameAnswers : List AnswerDecisionPacketItem → List AnswerDecisionPacketItem → Prop
  | [], [] => True
  | i :: is, j :: js => i.questionId = j.questionId ∧ i.value.Same j.value ∧ SameAnswers is js
  | _, _ => False

/-- The same body as the API interprets it: sets are compared as sets. -/
def Body.Same : Body → Body → Prop
  | none, none => True
  | createDataset r, createDataset r' => r = r'
  | signUploadParts r, signUploadParts r' => r.uploadId = r'.uploadId ∧ r.partNumbers.Same r'.partNumbers
  | finalizeDataset r, finalizeDataset r' => r = r'
  | createRun r, createRun r' =>
    { r with webhookEndpointIds := r'.webhookEndpointIds } = r' ∧ r.webhookEndpointIds.Same r'.webhookEndpointIds
  | answer r, answer r' => SameAnswers r.answers r'.answers
  | decideApproval r, decideApproval r' => r = r'
  | createWebhookEndpoint r, createWebhookEndpoint r' => r = r'
  | _, _ => False

/-- The sets of two bodies are iterated in the same order. -/
def Body.Alike : Body → Body → Prop
  | signUploadParts r, signUploadParts r' => r.partNumbers = r'.partNumbers
  | createRun r, createRun r' => r.webhookEndpointIds = r'.webhookEndpointIds
  | _, _ => True

/-! ### Dumps tell models apart -/

theorem faithful_value {α : Type} {value : α → String} (h : ∀ a b, value a = value b → a = b) :
    Faithful (Json.str ∘ value) :=
  Json.faithful_str.comp h

theorem DatasetMediaType.value_inj (a b : DatasetMediaType) (h : a.value = b.value) : a = b := by
  revert h
  cases a <;> cases b <;> decide

theorem TaskType.value_inj (a b : TaskType) (h : a.value = b.value) : a = b := by
  revert h
  cases a <;> cases b <;> decide

theorem ProductionDeploy.value_inj (a b : ProductionDeploy) (h : a.value = b.value) : a = b := by
  revert h
  cases a <;> cases b <;> decide

theorem RiskTier.value_inj (a b : RiskTier) (h : a.value = b.value) : a = b := by
  revert h
  cases a <;> cases b <;> decide

theorem ApprovalDecision.value_inj (a b : ApprovalDecision) (h : a.value = b.value) : a = b := by
  revert h
  cases a <;> cases b <;> decide

theorem WebhookEventType.value_inj (a b : WebhookEventType) (h : a.value = b.value) : a = b := by
  revert h
  cases a <;> cases b <;> decide

theorem PyFloat.faithful_json : Faithful PyFloat.json := by
  intro a b
  cases a <;> cases b <;> simp [PyFloat.json, Json.decimal, Json.Same]

theorem PositiveClass.faithful_json : Faithful PositiveClass.json := by
  intro a b
  cases a with
  | bool t =>
    cases b with
    | bool u => simpa [PositiveClass.json] using Json.faithful_bool t u
    | str s => simp [PositiveClass.json, Json.bool, Json.Same]
    | int i => cases t <;> simp [PositiveClass.json, Json.bool, Json.int, Json.Same]
  | str s => cases b <;> simp [PositiveClass.json, Json.bool, Json.int, Json.Same]
  | int i => cases b <;> simp [PositiveClass.json, Json.bool, Json.int, Json.Same]

theorem PositiveClass.solid_json : Solid PositiveClass.json := by
  intro a
  cases a with
  | str s => exact Json.solid_str s
  | int i => exact Json.solid_int i
  | bool b => exact Json.solid_bool b

theorem faithful_option_str : Faithful (Json.option .str) := Json.faithful_str.option Json.solid_str

theorem FinalizeDatasetPart.faithful_modelDump : Faithful FinalizeDatasetPart.modelDump := by
  intro a b
  rw [modelDump, modelDump, same_object (by rfl) (by simp)]
  simp only [List.map_cons, List.map_nil, Json.SameItems, Json.faithful_int _ _, Json.faithful_str _ _]
  cases a
  cases b
  simp

theorem Objective.faithful_modelDump : Faithful Objective.modelDump := by
  have htask : Faithful (Json.option (.str ∘ TaskType.value)) :=
    (faithful_value TaskType.value_inj).option (Json.solid_str.comp _)
  have hclass : Faithful (Json.option PositiveClass.json) := PositiveClass.faithful_json.option PositiveClass.solid_json
  have hbool : Faithful (Json.option .bool) := Json.faithful_bool.option Json.solid_bool
  intro a b
  rw [modelDump, modelDump, same_object (by rfl) (by simp)]
  simp only [List.map_cons, List.map_nil, Json.SameItems, Json.faithful_str _ _, faithful_option_str _ _, htask _ _,
    hclass _ _, hbool _ _]
  cases a
  cases b
  simp

theorem AutonomyPolicy.faithful_modelDump : Faithful AutonomyPolicy.modelDump := by
  intro a b
  rw [modelDump, modelDump, same_object (by rfl) (by simp)]
  simp only [List.map_cons, List.map_nil, Json.SameItems, Json.faithful_str _ _]
  cases a with
  | mk deploy =>
    cases b with
    | mk deploy' => simpa using ⟨ProductionDeploy.value_inj deploy deploy', congrArg ProductionDeploy.value⟩

theorem RunPolicy.faithful_modelDump : Faithful RunPolicy.modelDump := by
  have htier := faithful_value RiskTier.value_inj
  intro a b
  rw [modelDump, modelDump, same_object (by rfl) (by simp)]
  simp only [List.map_cons, List.map_nil, Json.SameItems, Json.faithful_bool _ _]
  rw [show (Json.str a.riskTier.value).Same (.str b.riskTier.value) ↔ a.riskTier = b.riskTier from htier _ _]
  cases a
  cases b
  simp

theorem RunBudget.faithful_modelDump : Faithful RunBudget.modelDump := by
  intro a b
  rw [modelDump, modelDump, same_object (by rfl) (by simp)]
  simp only [List.map_cons, List.map_nil, Json.SameItems, Json.faithful_int _ _, PyFloat.faithful_json _ _]
  cases a
  cases b
  simp

theorem CreateDatasetRequest.faithful_modelDump : Faithful fun r : CreateDatasetRequest => .object r.modelDump := by
  have hmedia := faithful_value DatasetMediaType.value_inj
  have hdays : Faithful (Json.option .int) := Json.faithful_int.option Json.solid_int
  intro a b
  dsimp only
  rw [modelDump, modelDump, same_object (by rfl) (by simp)]
  simp only [List.map_cons, List.map_nil, Json.SameItems, Json.faithful_int _ _, hdays _ _]
  rw [show (Json.str a.mediaType.value).Same (.str b.mediaType.value) ↔ a.mediaType = b.mediaType from hmedia _ _]
  simp only [Json.faithful_str _ _]
  cases a
  cases b
  simp

theorem SignUploadPartsRequest.faithful_modelDump :
    Faithful fun r : SignUploadPartsRequest => .object r.modelDump := by
  intro a b
  dsimp only
  rw [modelDump, modelDump, same_object (by rfl) (by simp)]
  simp only [List.map_cons, List.map_nil, Json.SameItems, Json.faithful_str _ _, Json.faithful_int.list _ _]
  cases a with
  | mk uploadId numbers =>
    cases b with
    | mk uploadId' numbers' => simpa using fun _ => ⟨PySet.ext, congrArg PySet.elements⟩

theorem FinalizeDatasetRequest.faithful_modelDump :
    Faithful fun r : FinalizeDatasetRequest => .object r.modelDump := by
  intro a b
  dsimp only
  rw [modelDump, modelDump, same_object (by rfl) (by simp)]
  simp only [List.map_cons, List.map_nil, Json.SameItems, Json.faithful_str _ _,
    FinalizeDatasetPart.faithful_modelDump.list _ _]
  cases a
  cases b
  simp

theorem CreateRunRequest.faithful_modelDump : Faithful fun r : CreateRunRequest => .object r.modelDump := by
  intro a b
  dsimp only
  rw [modelDump, modelDump, same_object (by rfl) (by simp)]
  simp only [List.map_cons, List.map_nil, Json.SameItems, Json.faithful_str _ _, faithful_option_str _ _,
    Objective.faithful_modelDump _ _, AutonomyPolicy.faithful_modelDump _ _, RunPolicy.faithful_modelDump _ _,
    RunBudget.faithful_modelDump _ _, Json.faithful_str.list _ _]
  constructor
  · rintro ⟨hversion, hobjective, hautonomy, hpolicy, hbudget, huri, hurl, hids, -⟩
    have hids := PySet.ext hids
    cases a
    cases b
    simp_all
  · rintro rfl
    simp

theorem DecideApprovalRequest.faithful_modelDump :
    Faithful fun r : DecideApprovalRequest => .object r.modelDump := by
  have hdecision := faithful_value ApprovalDecision.value_inj
  intro a b
  dsimp only
  rw [modelDump, modelDump, same_object (by rfl) (by simp)]
  simp only [List.map_cons, List.map_nil, Json.SameItems, Json.faithful_int _ _]
  rw [show (Json.str a.decision.value).Same (.str b.decision.value) ↔ a.decision = b.decision from hdecision _ _]
  simp only [Json.faithful_str _ _]
  cases a
  cases b
  simp

theorem CreateWebhookEndpointRequest.faithful_modelDump :
    Faithful fun r : CreateWebhookEndpointRequest => .object r.modelDump := by
  have htypes := (faithful_value WebhookEventType.value_inj).list
  intro a b
  dsimp only
  rw [modelDump, modelDump, same_object (by rfl) (by simp)]
  simp only [List.map_cons, List.map_nil, Json.SameItems, Json.faithful_str _ _, faithful_option_str _ _, htypes _ _]
  cases a
  cases b
  simp

theorem same_answers (is js : List AnswerDecisionPacketItem) :
    Json.SameItems (is.map AnswerDecisionPacketItem.modelDump) (js.map AnswerDecisionPacketItem.modelDump) ↔
      SameAnswers is js := by
  have hitem (i j : AnswerDecisionPacketItem) :
      i.modelDump.Same j.modelDump ↔ i.questionId = j.questionId ∧ i.value.Same j.value := by
    rw [AnswerDecisionPacketItem.modelDump, AnswerDecisionPacketItem.modelDump, same_object (by rfl) (by simp)]
    simp [Json.SameItems, Json.faithful_str _ _]
  induction is generalizing js with
  | nil => cases js <;> simp [Json.SameItems, SameAnswers]
  | cons i is ih =>
    cases js with
    | nil => simp [Json.SameItems, SameAnswers]
    | cons j js => simp [Json.SameItems, SameAnswers, hitem, ih, and_assoc]

/-- The models of bodies. -/
inductive BodyModel where
  | none | createDataset | signUploadParts | finalizeDataset | createRun | answer | decideApproval
  | createWebhookEndpoint
  deriving DecidableEq

def BodyModel.keys : BodyModel → List String
  | none => []
  | createDataset => ["name", "filename", "media_type", "size_bytes", "retention_days"]
  | signUploadParts => ["upload_id", "part_numbers"]
  | finalizeDataset => ["upload_id", "parts", "sha256"]
  | createRun =>
    ["dataset_version_id", "objective", "autonomy", "policy", "budget", "callback_uri", "callback_url",
      "webhook_endpoint_ids"]
  | answer => ["answers"]
  | decideApproval => ["decision", "reason", "evidence_version"]
  | createWebhookEndpoint => ["url", "event_types", "description"]

def Body.model : Body → BodyModel
  | none => .none
  | createDataset _ => .createDataset
  | signUploadParts _ => .signUploadParts
  | finalizeDataset _ => .finalizeDataset
  | createRun _ => .createRun
  | answer _ => .answer
  | decideApproval _ => .decideApproval
  | createWebhookEndpoint _ => .createWebhookEndpoint

theorem BodyModel.keys_inj (m n : BodyModel) (hlength : m.keys.length = n.keys.length)
    (hkeys : ∀ k ∈ m.keys, k ∈ n.keys) : m = n := by
  revert hlength hkeys
  cases m <;> cases n <;> decide

theorem Body.json_cases (b : Body) :
    b = .none ∨ ∃ fields, b.json = .object fields ∧ fields.map Prod.fst = b.model.keys ∧ b.model ≠ .none := by
  cases b with
  | none => exact .inl rfl
  | createDataset r | signUploadParts r | finalizeDataset r | createRun r | answer r | decideApproval r
  | createWebhookEndpoint r => exact .inr ⟨r.modelDump, rfl, rfl, BodyModel.noConfusion⟩

theorem Body.model_of_same {a b : Body} (h : a.json.Same b.json) : a.model = b.model := by
  rcases a.json_cases with rfl | ⟨fs, ha, hfs, -⟩ <;> rcases b.json_cases with rfl | ⟨gs, hb, hgs, -⟩
  · rfl
  · rw [hb] at h
    simp [Body.json, Json.null, Json.Same] at h
  · rw [ha] at h
    simp [Body.json, Json.null, Json.Same] at h
  · rw [ha, hb] at h
    obtain ⟨hlength, hkeys⟩ := Json.keys_of_same h
    refine BodyModel.keys_inj _ _ ?_ ?_
    · rw [← hfs, ← hgs, List.length_map, List.length_map, hlength]
    · rw [← hfs, ← hgs]
      exact hkeys

theorem Body.Same.model {a b : Body} (h : a.Same b) : a.model = b.model := by
  revert h
  cases a <;> cases b <;> simp [Body.Same, Body.model]

/-- The dumps of two bodies are the same up to the order of keys if the bodies are, and
their sets are iterated alike. -/
theorem Body.json_same_iff (a b : Body) : a.json.Same b.json ↔ a.Same b ∧ a.Alike b := by
  by_cases hmodel : a.model = b.model
  swap
  · exact iff_of_false (fun h => hmodel (model_of_same h)) fun h => hmodel h.1.model
  cases a with
  | none => cases b with
    | none => simp [Body.json, Json.null, Json.Same, Body.Same, Alike]
    | _ => cases hmodel
  | createDataset r => cases b with
    | createDataset r' => exact (CreateDatasetRequest.faithful_modelDump r r').trans (by simp [Body.Same, Alike])
    | _ => cases hmodel
  | signUploadParts r => cases b with
    | signUploadParts r' =>
      refine (SignUploadPartsRequest.faithful_modelDump r r').trans ⟨?_, ?_⟩
      · rintro rfl
        exact ⟨⟨rfl, List.Perm.refl _⟩, rfl⟩
      · rintro ⟨⟨hid, -⟩, hnumbers⟩
        cases r
        cases r'
        cases hid
        cases hnumbers
        rfl
    | _ => cases hmodel
  | finalizeDataset r => cases b with
    | finalizeDataset r' => exact (FinalizeDatasetRequest.faithful_modelDump r r').trans (by simp [Body.Same, Alike])
    | _ => cases hmodel
  | createRun r => cases b with
    | createRun r' =>
      refine (CreateRunRequest.faithful_modelDump r r').trans ⟨?_, ?_⟩
      · rintro rfl
        exact ⟨⟨rfl, List.Perm.refl _⟩, rfl⟩
      · rintro ⟨⟨hrest, -⟩, hids⟩
        rw [← hrest, ← hids]
    | _ => cases hmodel
  | answer r => cases b with
    | answer r' =>
      rw [Body.json, Body.json, AnswerDecisionPacketRequest.modelDump, AnswerDecisionPacketRequest.modelDump,
        same_object (by rfl) (by simp)]
      simpa [Json.SameItems, Body.Same, Alike, Json.Same] using same_answers r.answers r'.answers
    | _ => cases hmodel
  | decideApproval r => cases b with
    | decideApproval r' => exact (DecideApprovalRequest.faithful_modelDump r r').trans (by simp [Body.Same, Alike])
    | _ => cases hmodel
  | createWebhookEndpoint r => cases b with
    | createWebhookEndpoint r' =>
      exact (CreateWebhookEndpointRequest.faithful_modelDump r r').trans (by simp [Body.Same, Alike])
    | _ => cases hmodel

theorem Objective.keyed_modelDump (o : Objective) : o.modelDump.Keyed := by
  have hclass (c : PositiveClass) : c.json.Keyed := by
    cases c with
    | str s => exact Json.keyed_str s
    | int i => exact Json.keyed_int i
    | bool b => exact Json.keyed_bool b
  simp [modelDump, Json.Keyed, Json.KeyedFields, Json.keyed_option, Json.keyed_option Json.keyed_str, Json.keyed_bool,
    hclass]

theorem RunBudget.keyed_modelDump (b : RunBudget) : b.modelDump.Keyed := by
  have hfloat : b.maxComputeCredits.json.Keyed := by
    cases b.maxComputeCredits <;> simp [PyFloat.json, Json.decimal, Json.Keyed]
  simp [modelDump, Json.Keyed, Json.KeyedFields, Json.keyed_int, hfloat]

/-- No dump has a key twice in an object. -/
theorem Body.keyed_json (b : Body) : b.json.Keyed := by
  cases b with
  | none => simp [Body.json, Json.null, Json.Keyed]
  | createDataset r =>
    simp [Body.json, CreateDatasetRequest.modelDump, Json.Keyed, Json.KeyedFields, Json.keyed_option, Json.keyed_int]
  | signUploadParts r =>
    simp [Body.json, SignUploadPartsRequest.modelDump, Json.Keyed, Json.KeyedFields,
      Json.keyedItems_map Json.keyed_int]
  | finalizeDataset r =>
    have hpart (p : FinalizeDatasetPart) : p.modelDump.Keyed := by
      simp [FinalizeDatasetPart.modelDump, Json.Keyed, Json.KeyedFields, Json.keyed_int]
    simp [Body.json, FinalizeDatasetRequest.modelDump, Json.Keyed, Json.KeyedFields, Json.keyedItems_map hpart]
  | createRun r =>
    simp [Body.json, CreateRunRequest.modelDump, Json.Keyed, Json.KeyedFields, Json.keyed_option Json.keyed_str,
      Json.keyedItems_map Json.keyed_str, Objective.keyed_modelDump, RunBudget.keyed_modelDump,
      AutonomyPolicy.modelDump, RunPolicy.modelDump, Json.keyed_bool]
  | answer r =>
    have hitem (i : AnswerDecisionPacketItem) : i.modelDump.Keyed := by
      simp [AnswerDecisionPacketItem.modelDump, Json.Keyed, Json.KeyedFields, i.keyed]
    simp [Body.json, AnswerDecisionPacketRequest.modelDump, Json.Keyed, Json.KeyedFields, Json.keyedItems_map hitem]
  | decideApproval r =>
    simp [Body.json, DecideApprovalRequest.modelDump, Json.Keyed, Json.KeyedFields, Json.keyed_int]
  | createWebhookEndpoint r =>
    have htype (t : WebhookEventType) : ((Json.str ∘ WebhookEventType.value) t).Keyed := Json.keyed_str t.value
    simp [Body.json, CreateWebhookEndpointRequest.modelDump, Json.Keyed, Json.KeyedFields,
      Json.keyed_option Json.keyed_str, Json.keyedItems_map htype]

end AutomlApi.Requests
