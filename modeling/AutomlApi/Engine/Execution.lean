import AutomlApi.Engine.Preparation
import AutomlApi.Library.Act

/-! The execution of a backend on prepared data: the built-in search, and the assembly
of what a native backend has trained. Both publish a TRAIN stage through a callback that
may raise, and both open the sealed holdout to evaluate one candidate. Fitting,
predicting and drawing are left to a `Learning`. -/

namespace AutomlApi.Engine

open Act (get modify raise check)

/-- What a call raises: an `Exception` by its type, or an exception that `except
Exception` lets pass. -/
inductive Raised where
  | exception (type : String)
  | interrupt
  deriving DecidableEq, Repr

def modelTrainingError : Raised := .exception "ModelTrainingError"

/-- `except Exception as error: raise ModelTrainingError from error`. -/
def orModelTraining {α : Type} : Except Raised α → Except Raised α
  | .error (.exception _) => .error modelTrainingError
  | r => r

structure CandidateSpec where
  family : String
  config : List (String × String)
  deriving DecidableEq, Repr

/-- What a model is selected on. -/
structure Development (F : Type) where
  numericColumns : List String
  categoricalColumns : List String
  taskType : TaskType
  primaryMetric : String
  seed : ℕ
  features : FeatureFrame F
  target : List (Cell F)
  cvSplits : List (List ℕ × List ℕ)

def PreparedTabularData.development {F : Type} (prepared : PreparedTabularData F) : Development F where
  numericColumns := prepared.numericColumns
  categoricalColumns := prepared.categoricalColumns
  taskType := prepared.taskType
  primaryMetric := prepared.task.primaryMetric
  seed := prepared.seed
  features := prepared.developmentFeatures
  target := prepared.developmentTarget
  cvSplits := prepared.cvSplits

structure Metric (F : Type) where
  mean : F
  std : F
  deriving DecidableEq, Repr

/-- Cross-validation and fitting on what they are handed, prediction, and arithmetic. A
cross-validation gives the values of each score over the folds. -/
structure Learning (F M : Type) where
  crossValidate : CandidateSpec → Development F → Except Raised (List (String × List F))
  fit : CandidateSpec → Development F → Except Raised M
  predict : M → FeatureFrame F → List (Cell F) → TaskType → Except Raised (List (String × F))
  render : TaskType → List (String × F) → List (String × F) → Except Raised (List String)
  dump : M → Except Raised String
  sha256 : String → String
  stableHash : String → CandidateSpec → ℕ → String
  less : F → F → Bool
  sub : F → F → F
  neg : F → F
  mean : List F → F
  std : List F → F
  isFinite : F → Bool

/-- `_scoring`. -/
def scoring : TaskType → List String
  | .binaryClassification => ["average_precision", "roc_auc", "log_loss", "accuracy"]
  | .regression => ["rmse", "mae", "r2"]

def minimized : TaskType → List String
  | .binaryClassification => ["log_loss"]
  | .regression => ["rmse", "mae"]

/-- `_metric_is_maximized`. -/
def metricIsMaximized (metric : String) : Bool := metric ∉ ["log_loss", "rmse", "mae"]

/-- `_model_specs`: the baseline and the candidates of a task. -/
def modelSpecs : TaskType → CandidateSpec × List CandidateSpec
  | .binaryClassification =>
    (⟨"DUMMY_CLASSIFIER", [("strategy", "prior")]⟩,
      [⟨"LOGISTIC_REGRESSION",
        [("C", "1.0"), ("class_weight", "balanced"), ("max_iter", "1000"), ("solver", "liblinear")]⟩,
      ⟨"RANDOM_FOREST_CLASSIFIER",
        [("n_estimators", "64"), ("min_samples_leaf", "2"), ("class_weight", "balanced_subsample"), ("n_jobs", "1")]⟩])
  | .regression =>
    (⟨"DUMMY_REGRESSOR", [("strategy", "mean")]⟩,
      [⟨"RIDGE", [("alpha", "1.0"), ("solver", "lsqr")]⟩,
      ⟨"RANDOM_FOREST_REGRESSOR", [("n_estimators", "64"), ("min_samples_leaf", "2"), ("n_jobs", "1")]⟩])

structure BaselineRecord (F : Type) where
  spec : CandidateSpec
  primaryMetric : String
  cvMetrics : List (String × Metric F)
  deriving DecidableEq, Repr

/-- A trial, with its metrics and its score if it succeeded. -/
structure TrialRecord (F : Type) where
  configHash : String
  trialNumber : ℕ
  spec : CandidateSpec
  succeeded : Option (List (String × Metric F) × F)
  errorType : Option String := none
  failureCode : Option String := none
  evaluationProtocol : Option String := none
  deriving DecidableEq, Repr

structure EvaluationRecord (F : Type) where
  primaryMetric : String
  baseline : F
  candidate : F
  pairedImprovement : F
  baselineMetrics : List (String × F)
  candidateMetrics : List (String × F)
  selectedFamily : String
  selectedCvScore : F
  holdoutEvaluations : ℕ
  visualizations : List String
  deriving DecidableEq, Repr

structure ModelMetadata (F : Type) where
  backendId : String
  spec : CandidateSpec
  configHash : String
  datasetSha256 : String
  splitFingerprint : String
  taskType : TaskType
  targetColumn : String
  featureColumns : List String
  primaryMetric : String
  cvMetrics : List (String × Metric F)
  seed : ℕ
  sizeBytes : ℕ
  sha256 : String
  deriving DecidableEq, Repr

/-- `TabularAutoMLResult`. -/
structure TabularAutoMLResult (F : Type) where
  profile : ProfileRecord
  task : TaskRecord F
  split : SplitRecord F
  baseline : BaselineRecord F
  trials : List (TrialRecord F)
  evaluation : EvaluationRecord F
  modelMetadata : ModelMetadata F
  modelBytes : String

/-- What a stage publishes. -/
inductive Snapshot (F : Type) where
  | plan (task : TaskRecord F) (split : SplitRecord F)
  | train (baseline : BaselineRecord F) (trials : List (TrialRecord F))

inductive Phase where
  | plan
  | train
  deriving DecidableEq, Repr

def Snapshot.phase {F : Type} : Snapshot F → Phase
  | .plan _ _ => .plan
  | .train _ _ => .train

/-- What is remembered of an execution: a stage whose callback returned, and the opening
of the holdout. -/
inductive Moment where
  | published (phase : Phase)
  | opened
  deriving DecidableEq, Repr

structure Session (F : Type) where
  holdout : SealedHoldout F
  log : List Moment := []

/-- A stage callback may do anything with what it is given, and remembers its calls. -/
abbrev StageCallback (F : Type) := List Moment → Snapshot F → Except Raised Unit

section Execution

variable {F M : Type}

/-- `open_once`. -/
def openOnce : Act (Session F) Raised (FeatureFrame F × List (Cell F)) := do
  let session ← get
  if session.holdout.opened then raise (.exception "RuntimeError")
  else do
    modify fun s =>
      { s with
        holdout := { s.holdout with opened := true, openCount := s.holdout.openCount + 1 }, log := s.log ++ [.opened] }
    return (session.holdout.features, session.holdout.target)

/-- `if stage_callback is not None: stage_callback(...)`. -/
def notify (callback : Option (StageCallback F)) (snapshot : Snapshot F) : Act (Session F) Raised Unit :=
  match callback with
  | none => pure ()
  | some call => do
    let session ← get
    check (call session.log snapshot)
    modify fun s => { s with log := s.log ++ [.published snapshot.phase] }

/-- A score of a cross-validation, turned so that an error is positive. -/
def scoreOf (lib : Learning F M) (taskType : TaskType) (name : String) (values : List F) : Except Raised (String × Metric F) :=
  let values := if name ∈ minimized taskType then values.map lib.neg else values
  if values.all lib.isFinite then .ok (name, ⟨lib.mean values, lib.std values⟩) else .error modelTrainingError

/-- `_cross_validated_metrics`. -/
def crossValidatedMetrics (lib : Learning F M) (spec : CandidateSpec) (d : Development F) :
    Except Raised (List (String × Metric F)) := do
  let result ← lib.crossValidate spec d
  (scoring d.taskType).mapM fun name =>
    match result.lookup name with
    | some values => scoreOf lib d.taskType name values
    | none => .error (.exception "KeyError")

/-- One candidate on the development folds. -/
def evaluateCandidate (lib : Learning F M) (d : Development F) (spec : CandidateSpec) :
    Except Raised (List (String × Metric F) × F) := do
  let metrics ← crossValidatedMetrics lib spec d
  match metrics.lookup d.primaryMetric with
  | some metric => return (metrics, metric.mean)
  | none => .error (.exception "KeyError")

/-- The trials from the `trialNumber`-th on. A candidate that raises an `Exception` is a
failed trial. -/
def runTrials (lib : Learning F M) (d : Development F) (trialNumber : ℕ) :
    List CandidateSpec → Except Raised (List (TrialRecord F))
  | [] => .ok []
  | spec :: rest => do
    let trial : TrialRecord F ←
      match evaluateCandidate lib d spec with
      | .ok succeeded =>
        .ok { configHash := lib.stableHash "sklearn" spec d.seed, trialNumber := trialNumber, spec := spec,
              succeeded := some succeeded }
      | .error (.exception type) =>
        .ok { configHash := lib.stableHash "sklearn" spec d.seed, trialNumber := trialNumber, spec := spec,
              succeeded := none, errorType := some type, failureCode := some "CANDIDATE_EVALUATION_FAILED" }
      | .error .interrupt => .error .interrupt
    let trials ← runTrials lib d (trialNumber + 1) rest
    return trial :: trials

/-- `max` or `min` by the primary score: the first of the best. -/
def best (better : F → F → Bool) : List (CandidateSpec × List (String × Metric F) × F) →
    Option (CandidateSpec × List (String × Metric F) × F)
  | [] => none
  | item :: rest => some (rest.foldl (fun best item => if better item.2.2 best.2.2 then item else best) item)

/-- All that is decided on the development rows alone. -/
structure Selection (F M : Type) where
  baseline : BaselineRecord F
  trials : List (TrialRecord F)
  selected : CandidateSpec
  cvMetrics : List (String × Metric F)
  score : F
  fittedBaseline : M
  fittedCandidate : M

/-- The part of `_execute` that comes before the TRAIN stage. -/
def selectCandidate (lib : Learning F M) (d : Development F) (baselineSpec : CandidateSpec)
    (candidates : List CandidateSpec) : Except Raised (Selection F M) := do
  let baselineMetrics ← orModelTraining (crossValidatedMetrics lib baselineSpec d)
  let trials ← runTrials lib d 0 candidates
  let successful := trials.filterMap fun trial => trial.succeeded.map fun s => (trial.spec, s)
  let better := fun a b => if metricIsMaximized d.primaryMetric then lib.less b a else lib.less a b
  match best better successful with
  | none => .error modelTrainingError
  | some (selected, cvMetrics, score) =>
    let fittedBaseline ← lib.fit baselineSpec d
    let fittedCandidate ← lib.fit selected d
    return {
      baseline := { spec := baselineSpec, primaryMetric := d.primaryMetric, cvMetrics := baselineMetrics },
      trials := trials, selected := selected, cvMetrics := cvMetrics, score := score,
      fittedBaseline := fittedBaseline, fittedCandidate := fittedCandidate }

/-- `_holdout_evaluation`. -/
def holdoutEvaluation (lib : Learning F M) (model : M) (features : FeatureFrame F) (target : List (Cell F))
    (taskType : TaskType) : Except Raised (List (String × F)) := do
  let metrics ← lib.predict model features target taskType
  if metrics.all (lib.isFinite ·.2) then return metrics else .error modelTrainingError

def primaryOf (metrics : List (String × F)) (primaryMetric : String) : Except Raised F :=
  match metrics.lookup primaryMetric with
  | some value => .ok value
  | none => .error (.exception "KeyError")

/-- The report on one candidate, once the holdout is open. -/
def evaluationRecord (lib : Learning F M) (primaryMetric selectedFamily : String) (selectedCvScore : F)
    (baselineMetrics candidateMetrics : List (String × F)) (visualizations : List String) (openCount : ℕ) :
    Except Raised (EvaluationRecord F) := do
  let baseline ← primaryOf baselineMetrics primaryMetric
  let candidate ← primaryOf candidateMetrics primaryMetric
  let improvement := if metricIsMaximized primaryMetric then lib.sub candidate baseline else lib.sub baseline candidate
  return {
    primaryMetric := primaryMetric, baseline := baseline, candidate := candidate, pairedImprovement := improvement,
    baselineMetrics := baselineMetrics, candidateMetrics := candidateMetrics, selectedFamily := selectedFamily,
    selectedCvScore := selectedCvScore, holdoutEvaluations := openCount, visualizations := visualizations }

/-- `_execute`, with the baseline and the candidates it tries. -/
def execute (lib : Learning F M) (prepared : PreparedTabularData F) (baselineSpec : CandidateSpec)
    (candidates : List CandidateSpec) (callback : Option (StageCallback F)) :
    Act (Session F) Raised (TabularAutoMLResult F) := do
  let s ← check (selectCandidate lib prepared.development baselineSpec candidates)
  notify callback (.train s.baseline s.trials)
  let (features, target) ← openOnce
  let baselineHoldout ← check (holdoutEvaluation lib s.fittedBaseline features target prepared.taskType)
  let candidateHoldout ← check (holdoutEvaluation lib s.fittedCandidate features target prepared.taskType)
  let visualizations ← check (lib.render prepared.taskType baselineHoldout candidateHoldout)
  let session ← get
  let evaluation ← check (evaluationRecord lib prepared.task.primaryMetric s.selected.family s.score
    baselineHoldout candidateHoldout visualizations session.holdout.openCount)
  let modelBytes ← check (lib.dump s.fittedCandidate)
  return {
    profile := prepared.profile, task := prepared.task, split := prepared.split, baseline := s.baseline,
    trials := s.trials, evaluation := evaluation,
    modelMetadata :=
      { backendId := "sklearn", spec := s.selected, configHash := lib.stableHash "sklearn" s.selected prepared.seed,
        datasetSha256 := prepared.datasetSha256, splitFingerprint := prepared.split.fingerprint,
        taskType := prepared.taskType, targetColumn := prepared.targetColumn,
        featureColumns := prepared.numericColumns ++ prepared.categoricalColumns,
        primaryMetric := prepared.task.primaryMetric, cvMetrics := s.cvMetrics, seed := prepared.seed,
        sizeBytes := modelBytes.utf8ByteSize, sha256 := lib.sha256 modelBytes },
    modelBytes := modelBytes }

/-- What a native backend has trained on the development rows. -/
structure NativeCandidate (F M : Type) where
  backendId : String
  spec : CandidateSpec
  developmentMetrics : List (String × Metric F)
  fittedCandidate : M
  modelBytes : String
  nativeTrials : Option (List (TrialRecord F))

/-- `native_trials or [...]`. -/
def nativeTrials (lib : Learning F M) (prepared : PreparedTabularData F) (native : NativeCandidate F M) (score : F) :
    List (TrialRecord F) :=
  match native.nativeTrials with
  | some (trial :: trials) => trial :: trials
  | _ =>
    [{ configHash := lib.stableHash native.backendId native.spec prepared.seed, trialNumber := 0, spec := native.spec,
       succeeded := some (native.developmentMetrics, score), evaluationProtocol := some "CROSS_VALIDATION" }]

/-- The baseline that a native candidate is compared with. -/
def fitBaseline (lib : Learning F M) (d : Development F) (baselineSpec : CandidateSpec) :
    Except Raised (List (String × Metric F) × M) := do
  let metrics ← crossValidatedMetrics lib baselineSpec d
  let fitted ← lib.fit baselineSpec d
  return (metrics, fitted)

/-- `assemble_native_result`. -/
def assembleNativeResult (lib : Learning F M) (prepared : PreparedTabularData F) (native : NativeCandidate F M)
    (callback : Option (StageCallback F)) : Act (Session F) Raised (TabularAutoMLResult F) := do
  let primaryMetric := prepared.task.primaryMetric
  let baselineSpec := (modelSpecs prepared.taskType).1
  let primary ← check
    (match native.developmentMetrics.lookup primaryMetric with
    | some metric => .ok metric
    | none => .error modelTrainingError)
  let (baselineMetrics, fittedBaseline) ← check (orModelTraining (fitBaseline lib prepared.development baselineSpec))
  let (features, target) ← openOnce
  let baselineHoldout ← check (holdoutEvaluation lib fittedBaseline features target prepared.taskType)
  let candidateHoldout ← check (holdoutEvaluation lib native.fittedCandidate features target prepared.taskType)
  let visualizations ← check (lib.render prepared.taskType baselineHoldout candidateHoldout)
  let session ← get
  let evaluation ← check (evaluationRecord lib primaryMetric native.spec.family primary.mean
    baselineHoldout candidateHoldout visualizations session.holdout.openCount)
  let baseline : BaselineRecord F := { spec := baselineSpec, primaryMetric := primaryMetric, cvMetrics := baselineMetrics }
  let trials := nativeTrials lib prepared native primary.mean
  notify callback (.train baseline trials)
  return {
    profile := prepared.profile, task := prepared.task, split := prepared.split, baseline := baseline,
    trials := trials, evaluation := evaluation,
    modelMetadata :=
      { backendId := native.backendId, spec := native.spec,
        configHash := lib.stableHash native.backendId native.spec prepared.seed,
        datasetSha256 := prepared.datasetSha256, splitFingerprint := prepared.split.fingerprint,
        taskType := prepared.taskType, targetColumn := prepared.targetColumn,
        featureColumns := prepared.numericColumns ++ prepared.categoricalColumns, primaryMetric := primaryMetric,
        cvMetrics := native.developmentMetrics, seed := prepared.seed,
        sizeBytes := native.modelBytes.utf8ByteSize, sha256 := lib.sha256 native.modelBytes },
    modelBytes := native.modelBytes }

/-- The backends: the built-in search over some candidates, or a native one by how it
trains on prepared data. -/
inductive Backend (F M : Type) where
  | sklearn (baselineSpec : CandidateSpec) (candidates : List CandidateSpec)
  | native (train : PreparedTabularData F → Except Raised (NativeCandidate F M))

/-- The built-in backend as it is configured. -/
def Backend.builtIn (prepared : PreparedTabularData F) (maxTrials : Option ℕ) : Backend F M :=
  let specs := modelSpecs prepared.taskType
  .sklearn specs.1 (match maxTrials with
    | some n => specs.2.take n
    | none => specs.2)

/-- `run` once the data is prepared. -/
def Backend.run (lib : Learning F M) (backend : Backend F M) (prepared : PreparedTabularData F)
    (callback : Option (StageCallback F)) : Act (Session F) Raised (TabularAutoMLResult F) := do
  notify callback (.plan prepared.task prepared.split)
  match backend with
  | .sklearn baselineSpec candidates => execute lib prepared baselineSpec candidates callback
  | .native train => do
    let native ← check (train prepared)
    assembleNativeResult lib prepared native callback

end Execution

end AutomlApi.Engine
