import AutomlApi.Engine.Backends

/-! What is told of a candidate on the holdout: the report of the engine, the table that is
drawn of it and the report that the run commits. -/

namespace AutomlApi.Engine

open Act (check)

variable {F M V : Type}

inductive Direction where
  | maximize
  | minimize
  | unspecified
  deriving DecidableEq, Repr

structure MetricValue (F : Type) where
  name : String
  value : F
  direction : Direction
  deriving DecidableEq, Repr

/-- `_metric_value`. -/
def metricValue (name : String) (value : F) : MetricValue F :=
  ⟨name, value, if metricIsMaximized name then .maximize else .minimize⟩

/-- The delta in the report of the engine. -/
def EvaluationRecord.pairedDelta (evaluation : EvaluationRecord F) : MetricValue F :=
  ⟨evaluation.primaryMetric ++ "_paired_improvement", evaluation.pairedImprovement, .maximize⟩

/-- `_metric` of the durable workflow. -/
def durableMetric (name : String) (value : F) : MetricValue F :=
  ⟨name, value, if name ∈ ["rmse", "mae", "log_loss"] then .minimize else .maximize⟩

/-- The payload of the evaluation report that the run commits. -/
structure EvaluationPayload (F : Type) where
  primaryMetric : String
  baseline : MetricValue F
  candidate : MetricValue F
  pairedDelta : MetricValue F
  guardrailsPassed : Bool := false
  eligibleCandidate : Bool := false
  failedGates : List String := ["PRODUCTION_ELIGIBILITY_NOT_EVALUATED"]
  deriving DecidableEq, Repr

/-- `_publish_result`, up to the payload. -/
def evaluationPayload (evaluation : EvaluationRecord F) : Except Raised (EvaluationPayload F) := do
  let primary := evaluation.primaryMetric
  let baselineHoldout ← primaryOf evaluation.baselineMetrics primary
  let candidateHoldout ← primaryOf evaluation.candidateMetrics primary
  return {
    primaryMetric := primary, baseline := durableMetric primary baselineHoldout,
    candidate := durableMetric primary candidateHoldout,
    pairedDelta := durableMetric primary evaluation.pairedImprovement }

/-! ### The table -/

/-- `_metric_direction`. -/
def metricDirection (name : String) : Direction :=
  let normalized := strip name.toLower
  if normalized ∈ ["log_loss", "mae", "rmse"] then .minimize
  else if normalized ∈ ["accuracy", "average_precision", "r2", "roc_auc"] then .maximize
  else .unspecified

inductive Outcome where
  | notEvaluated
  | tied
  | better
  | worse
  deriving DecidableEq, Repr

/-- `_candidate_outcome`, with `np.isclose` at its tolerances. -/
def candidateOutcome (lib : Learning F M) (isclose : F → F → Bool) (baseline candidate : F) (direction : Direction) :
    Outcome :=
  if direction = .unspecified then .notEvaluated
  else if isclose candidate baseline then .tied
  else
    let candidateIsBetter := if direction = .maximize then lib.less baseline candidate else lib.less candidate baseline
    if candidateIsBetter then .better else .worse

structure ComparisonRow where
  name : String
  direction : Direction
  baseline : String
  candidate : String
  outcome : Outcome
  deriving DecidableEq, Repr

/-- The rows of `_draw_metric_comparison`. -/
def comparisonRows (lib : Learning F M) (isclose : F → F → Bool) (format : F → String)
    (baselineMetrics candidateMetrics : List (String × F)) : List ComparisonRow :=
  let names := ((baselineMetrics.map (·.1)).filter (· ∈ candidateMetrics.map (·.1))).dedup.insertionSort (· ≤ ·)
  names.filterMap fun name => do
    let baseline ← baselineMetrics.lookup name
    let candidate ← candidateMetrics.lookup name
    let direction := metricDirection name
    return ⟨name, direction, format baseline, format candidate,
      candidateOutcome lib isclose baseline candidate direction⟩

/-! ### What is compared -/

/-- A report compares two values of a metric, and all its values are finite. -/
structure Evaluated (lib : Learning F M) (metric : String) (evaluation : EvaluationRecord F) : Prop where
  primaryMetric : evaluation.primaryMetric = metric
  baseline : evaluation.baselineMetrics.lookup metric = some evaluation.baseline
  candidate : evaluation.candidateMetrics.lookup metric = some evaluation.candidate
  finiteBaselines : evaluation.baselineMetrics.all (lib.isFinite ·.2) = true
  finiteCandidates : evaluation.candidateMetrics.all (lib.isFinite ·.2) = true
  improvement : evaluation.pairedImprovement =
    if metricIsMaximized metric then lib.sub evaluation.candidate evaluation.baseline
    else lib.sub evaluation.baseline evaluation.candidate

theorem finite_of_lookup {lib : Learning F M} {metrics : List (String × F)} {name : String} {value : F}
    (hf : metrics.all (lib.isFinite ·.2) = true) (h : metrics.lookup name = some value) : lib.isFinite value = true := by
  obtain ⟨_, _, rfl, -⟩ := List.lookup_eq_some_iff.mp h
  simp only [List.all_append, List.all_cons, Bool.and_eq_true] at hf
  exact hf.2.1

theorem evaluated_of_holdout {lib : Learning F M} {primaryMetric selectedFamily : String} {selectedCvScore : F}
    {baselineMetrics candidateMetrics : List (String × F)} {visualizations : List String} {openCount : ℕ}
    {evaluation : EvaluationRecord F} (hb : baselineMetrics.all (lib.isFinite ·.2) = true)
    (hc : candidateMetrics.all (lib.isFinite ·.2) = true)
    (h : evaluationRecord lib primaryMetric selectedFamily selectedCvScore baselineMetrics candidateMetrics
      visualizations openCount = .ok evaluation) : Evaluated lib primaryMetric evaluation := by
  obtain ⟨baseline, candidate, hbaseline, hcandidate, rfl⟩ := evaluationRecord_ok h
  exact ⟨rfl, hbaseline, hcandidate, hb, hc, rfl⟩

theorem execute_evaluated {lib : Learning F M} {prepared : PreparedTabularData F} {baselineSpec : CandidateSpec}
    {candidates : List CandidateSpec} {callback : Option (StageCallback F)} {s t : Session F}
    {result : TabularAutoMLResult F} (h : execute lib prepared baselineSpec candidates callback s = (.ok result, t)) :
    Evaluated lib prepared.task.primaryMetric result.evaluation := by
  unfold execute at h
  obtain ⟨selection, -, h⟩ := Act.check_bind_ok h
  obtain ⟨_, s₁, -, h⟩ := Act.bind_eq_ok h
  obtain ⟨opened, s₂, -, h⟩ := Act.bind_eq_ok h
  obtain ⟨baselineMetrics, hbaseline, h⟩ := Act.check_bind_ok h
  obtain ⟨candidateMetrics, hcandidate, h⟩ := Act.check_bind_ok h
  obtain ⟨visualizations, -, h⟩ := Act.check_bind_ok h
  rw [Act.get_bind] at h
  obtain ⟨evaluation, hevaluation, h⟩ := Act.check_bind_ok h
  obtain ⟨modelBytes, -, h⟩ := Act.check_bind_ok h
  cases h
  exact evaluated_of_holdout (holdoutEvaluation_ok hbaseline).2 (holdoutEvaluation_ok hcandidate).2 hevaluation

theorem assembleNativeResult_evaluated {lib : Learning F M} {prepared : PreparedTabularData F}
    {native : NativeCandidate F M} {callback : Option (StageCallback F)} {s t : Session F}
    {result : TabularAutoMLResult F} (h : assembleNativeResult lib prepared native callback s = (.ok result, t)) :
    Evaluated lib prepared.task.primaryMetric result.evaluation := by
  unfold assembleNativeResult at h
  obtain ⟨primary, -, h⟩ := Act.check_bind_ok h
  obtain ⟨fitted, -, h⟩ := Act.check_bind_ok h
  obtain ⟨opened, s₁, -, h⟩ := Act.bind_eq_ok h
  obtain ⟨baselineMetrics, hbaseline, h⟩ := Act.check_bind_ok h
  obtain ⟨candidateMetrics, hcandidate, h⟩ := Act.check_bind_ok h
  obtain ⟨visualizations, -, h⟩ := Act.check_bind_ok h
  rw [Act.get_bind] at h
  obtain ⟨evaluation, hevaluation, h⟩ := Act.check_bind_ok h
  obtain ⟨_, s₂, -, h⟩ := Act.bind_eq_ok h
  cases h
  exact evaluated_of_holdout (holdoutEvaluation_ok hbaseline).2 (holdoutEvaluation_ok hcandidate).2 hevaluation

/-- Whichever backend ran. -/
theorem Configured.run_evaluated {lib : Learning F M} {backend : Configured F M} {prepared : PreparedTabularData F}
    {maxTrials : Option ℕ} {maxWallTimeSeconds : Option ℤ} {callback : Option (StageCallback F)} {s t : Session F}
    {result : TabularAutoMLResult F}
    (h : backend.run lib prepared maxTrials maxWallTimeSeconds callback s = (.ok result, t)) :
    Evaluated lib prepared.task.primaryMetric result.evaluation := by
  cases backend with
  | sklearn =>
    obtain ⟨_, s₁, -, h⟩ := Act.bind_eq_ok h
    exact execute_evaluated h
  | autogluon a =>
    obtain ⟨_, s₁, -, h⟩ := Act.bind_eq_ok h
    obtain ⟨timeLimit, -, h⟩ := Act.check_bind_ok h
    obtain ⟨native, -, h⟩ := Act.check_bind_ok (rescue_ok h)
    exact assembleNativeResult_evaluated h
  | tabpfn p =>
    obtain ⟨_, s₁, -, h⟩ := Act.bind_eq_ok h
    obtain ⟨_, -, h⟩ := Act.check_bind_ok h
    obtain ⟨_, -, h⟩ := Act.check_bind_ok h
    obtain ⟨native, -, h⟩ := Act.check_bind_ok (rescue_ok h)
    exact assembleNativeResult_evaluated h

/-! ### The metrics of a task -/

theorem validatePrimaryMetric_mem {metric normalized : String} {taskType : TaskType}
    (h : validatePrimaryMetric metric taskType = .ok normalized) : normalized ∈ scoring taskType := by
  cases taskType with
  | binaryClassification =>
    simp only [validatePrimaryMetric] at h
    split_ifs at h with hm
    cases h
    exact hm
  | regression =>
    simp only [validatePrimaryMetric] at h
    split_ifs at h with hm
    cases h
    exact hm

theorem prepareTarget_primaryMetric [Float64 F] [DecidableEq F] {target : Series F} {taskType : TaskType}
    {positiveClass : Option (Cell F)} {primaryMetric : Option String} {encoded : List (Cell F)} {task : TaskRecord F}
    (h : prepareTarget target taskType positiveClass primaryMetric = .ok (encoded, task)) :
    task.primaryMetric ∈ scoring taskType := by
  cases taskType with
  | regression =>
    simp only [prepareTarget] at h
    split at h
    · cases h
    · obtain ⟨metric, hmetric, h⟩ := except_bind_eq_ok h
      cases h
      exact validatePrimaryMetric_mem hmetric
  | binaryClassification =>
    simp only [prepareTarget] at h
    obtain ⟨selected, -, h⟩ := except_bind_eq_ok h
    split at h
    · cases h
    · obtain ⟨metric, hmetric, h⟩ := except_bind_eq_ok h
      cases h
      exact validatePrimaryMetric_mem hmetric

/-- The primary metric of prepared data is one of its task's. -/
theorem prepareFrame_primaryMetric [Float64 F] [DecidableEq F] {sk : Splitters F} {hashes : Hashes F}
    {frame : Table F} {q : Preparation F} {prepared : PreparedTabularData F}
    (h : prepareFrame sk hashes frame q = .ok prepared) : prepared.task.primaryMetric ∈ scoring prepared.taskType := by
  obtain ⟨target, encoded, task, p, ha⟩ := prepareFrame_eq_ok h
  have hmetric := prepareTarget_primaryMetric ha.labelled
  rw [ha.recorded]
  exact hmetric

/-- The way a metric is read. -/
def pointed (metric : String) : Direction := if metricIsMaximized metric then .maximize else .minimize

/-- The durable workflow points every metric as the engine does. -/
theorem durableMetric_eq (name : String) (value : F) : durableMetric name value = ⟨name, value, pointed name⟩ := by
  have hsame : (name ∈ ["rmse", "mae", "log_loss"]) ↔ ¬ metricIsMaximized name = true := by
    simp only [metricIsMaximized, decide_eq_true_eq, not_not, List.mem_cons, List.not_mem_nil, or_false]
    tauto
  simp only [durableMetric, pointed, hsame, ite_not]

/-- The table points the metrics of a task so too. -/
theorem metricDirection_eq (taskType : TaskType) : ∀ name ∈ scoring taskType, metricDirection name = pointed name := by
  cases taskType <;> decide +kernel

/-! ### Gains -/

/-- Finite values are compared and subtracted as numbers are, and equal ones are close: so it
is with doubles. -/
structure Numeric [LinearOrder V] [Zero V] (lib : Learning F M) (value : F → V) (isclose : F → F → Bool) : Prop where
  less : ∀ a b, lib.isFinite a = true → lib.isFinite b = true → (lib.less a b = true ↔ value a < value b)
  sub_pos : ∀ a b, lib.isFinite a = true → lib.isFinite b = true → (0 < value (lib.sub a b) ↔ value b < value a)
  sub_neg : ∀ a b, lib.isFinite a = true → lib.isFinite b = true → (value (lib.sub a b) < 0 ↔ value a < value b)
  close : ∀ a b, lib.isFinite a = true → lib.isFinite b = true → value a = value b → isclose a b = true

/-- A delta that is a gain, read in its own direction. -/
def MetricValue.Gain [LinearOrder V] [Zero V] (value : F → V) (delta : MetricValue F) : Prop :=
  (delta.direction = .maximize ∧ 0 < value delta.value) ∨ (delta.direction = .minimize ∧ value delta.value < 0)

section Gains

variable [LinearOrder V] [Zero V] {lib : Learning F M} {value : F → V} {isclose : F → F → Bool}

theorem Evaluated.finiteBaseline {metric : String} {evaluation : EvaluationRecord F}
    (h : Evaluated lib metric evaluation) : lib.isFinite evaluation.baseline = true :=
  finite_of_lookup h.finiteBaselines h.baseline

theorem Evaluated.finiteCandidate {metric : String} {evaluation : EvaluationRecord F}
    (h : Evaluated lib metric evaluation) : lib.isFinite evaluation.candidate = true :=
  finite_of_lookup h.finiteCandidates h.candidate

/-- The improvement is positive where the candidate is better. -/
theorem Evaluated.improvement_pos (hn : Numeric lib value isclose) {metric : String} {evaluation : EvaluationRecord F}
    (h : Evaluated lib metric evaluation) :
    0 < value evaluation.pairedImprovement ↔ Surpasses value metric evaluation.candidate evaluation.baseline := by
  rw [h.improvement, Surpasses]
  split_ifs
  · exact hn.sub_pos _ _ h.finiteCandidate h.finiteBaseline
  · exact hn.sub_pos _ _ h.finiteBaseline h.finiteCandidate

/-- The outcome that is drawn, by the values and by whether they are close. -/
theorem candidateOutcome_spec (hn : Numeric lib value isclose) (metric : String) {baseline candidate : F}
    (hb : lib.isFinite baseline = true) (hc : lib.isFinite candidate = true) :
    (candidateOutcome lib isclose baseline candidate (pointed metric) = .tied ↔ isclose candidate baseline = true) ∧
    (candidateOutcome lib isclose baseline candidate (pointed metric) = .better ↔
      isclose candidate baseline = false ∧ Surpasses value metric candidate baseline) ∧
    (candidateOutcome lib isclose baseline candidate (pointed metric) = .worse ↔
      isclose candidate baseline = false ∧ Surpasses value metric baseline candidate) := by
  have hdirection : pointed metric ≠ .unspecified := by
    unfold pointed
    split_ifs <;> simp
  cases hclose : isclose candidate baseline with
  | true => simp [candidateOutcome, hdirection, hclose]
  | false =>
    have hne : value candidate ≠ value baseline := fun he => by
      rw [hn.close _ _ hc hb he] at hclose
      cases hclose
    -- values that are not close differ, and so one of them is better
    have hworse : ¬ Surpasses value metric candidate baseline ↔ Surpasses value metric baseline candidate := by
      unfold Surpasses
      split_ifs
      · rw [not_lt]
        exact ⟨fun h => lt_of_le_of_ne h hne, le_of_lt⟩
      · rw [not_lt]
        exact ⟨fun h => lt_of_le_of_ne h hne.symm, le_of_lt⟩
    have hbetter : (if pointed metric = .maximize then lib.less baseline candidate else lib.less candidate baseline) =
        true ↔ Surpasses value metric candidate baseline := by
      unfold Surpasses pointed
      cases metricIsMaximized metric with
      | true => simpa using hn.less _ _ hb hc
      | false => simpa using hn.less _ _ hc hb
    have houtcome : candidateOutcome lib isclose baseline candidate (pointed metric) =
        if (if pointed metric = .maximize then lib.less baseline candidate else lib.less candidate baseline) = true then
          Outcome.better else .worse := by
      unfold candidateOutcome
      rw [if_neg hdirection, hclose]
      rfl
    rw [houtcome, ← hworse, ← hbetter]
    generalize (if pointed metric = .maximize then lib.less baseline candidate else lib.less candidate baseline) = isBetter
    cases isBetter <;> simp

/-- The rows are those of the metrics that both have. -/
theorem mem_comparisonRows {format : F → String} {baselineMetrics candidateMetrics : List (String × F)}
    {row : ComparisonRow} :
    row ∈ comparisonRows lib isclose format baselineMetrics candidateMetrics ↔
      ∃ baseline candidate, baselineMetrics.lookup row.name = some baseline ∧
        candidateMetrics.lookup row.name = some candidate ∧
        row = ⟨row.name, metricDirection row.name, format baseline, format candidate,
          candidateOutcome lib isclose baseline candidate (metricDirection row.name)⟩ := by
  have hmem : ∀ {metrics : List (String × F)} {name : String} {v : F}, metrics.lookup name = some v →
      name ∈ metrics.map (·.1) := fun {metrics name v} h => by
    obtain ⟨_, _, rfl, -⟩ := List.lookup_eq_some_iff.mp h
    simp
  unfold comparisonRows
  rw [List.mem_filterMap]
  constructor
  · rintro ⟨name, -, hrow⟩
    obtain ⟨baseline, hb, hrow⟩ := Option.bind_eq_some_iff.mp hrow
    obtain ⟨candidate, hc, hrow⟩ := Option.bind_eq_some_iff.mp hrow
    cases hrow
    exact ⟨baseline, candidate, hb, hc, rfl⟩
  · rintro ⟨baseline, candidate, hb, hc, hrow⟩
    refine ⟨row.name, ?_, ?_⟩
    · rw [List.mem_insertionSort, List.mem_dedup, List.mem_filter]
      exact ⟨hmem hb, by simpa using hmem hc⟩
    · rw [hb, hc, hrow]
      rfl

theorem exists_comparisonRow {format : F → String} {baselineMetrics candidateMetrics : List (String × F)} {name : String}
    {baseline candidate : F} (hb : baselineMetrics.lookup name = some baseline)
    (hc : candidateMetrics.lookup name = some candidate) :
    ∃ row ∈ comparisonRows lib isclose format baselineMetrics candidateMetrics, row.name = name :=
  ⟨⟨name, metricDirection name, format baseline, format candidate,
    candidateOutcome lib isclose baseline candidate (metricDirection name)⟩,
    mem_comparisonRows.mpr ⟨baseline, candidate, hb, hc, rfl⟩, rfl⟩

end Gains

/-! ### The reports -/

/-- The report of the engine and the table agree with what is better on the holdout. -/
structure Reported [LinearOrder V] [Zero V] (lib : Learning F M) (value : F → V) (isclose : F → F → Bool)
    (format : F → String) (taskType : TaskType) (evaluation : EvaluationRecord F) : Prop where
  primary : evaluation.primaryMetric ∈ scoring taskType
  delta : evaluation.pairedDelta.Gain value ↔
    Surpasses value evaluation.primaryMetric evaluation.candidate evaluation.baseline
  row : ∃ row ∈ comparisonRows lib isclose format evaluation.baselineMetrics evaluation.candidateMetrics,
    row.name = evaluation.primaryMetric
  rows : ∀ row ∈ comparisonRows lib isclose format evaluation.baselineMetrics evaluation.candidateMetrics,
    row.name ∈ scoring taskType → ∃ baseline candidate, evaluation.baselineMetrics.lookup row.name = some baseline ∧
      evaluation.candidateMetrics.lookup row.name = some candidate ∧ row.direction = pointed row.name ∧
      (row.outcome = .tied ↔ isclose candidate baseline = true) ∧
      (row.outcome = .better ↔ isclose candidate baseline = false ∧ Surpasses value row.name candidate baseline) ∧
      (row.outcome = .worse ↔ isclose candidate baseline = false ∧ Surpasses value row.name baseline candidate)

theorem improvement_reported [Float64 F] [DecidableEq F] [LinearOrder V] [Zero V] (lib : Learning F M) (value : F → V)
    (isclose : F → F → Bool) (hn : Numeric lib value isclose) (format : F → String) (sk : Splitters F) (hashes : Hashes F)
    (frame : Table F) (q : Preparation F) (prepared : PreparedTabularData F)
    (hp : prepareFrame sk hashes frame q = .ok prepared) (backend : Configured F M) (maxTrials : Option ℕ)
    (maxWallTimeSeconds : Option ℤ) (callback : Option (StageCallback F)) (s t : Session F)
    (result : TabularAutoMLResult F)
    (h : backend.run lib prepared maxTrials maxWallTimeSeconds callback s = (.ok result, t)) :
    Reported lib value isclose format prepared.taskType result.evaluation := by
  have he := Configured.run_evaluated h
  have hmetric := he.primaryMetric
  refine ⟨?_, ?_, ?_, fun row hrow hname => ?_⟩
  · rw [hmetric]
    exact prepareFrame_primaryMetric hp
  · rw [hmetric, ← he.improvement_pos hn]
    simp [MetricValue.Gain, EvaluationRecord.pairedDelta]
  · rw [hmetric]
    exact exists_comparisonRow he.baseline he.candidate
  · obtain ⟨baseline, candidate, hb, hc, heq⟩ := mem_comparisonRows.mp hrow
    have hspec := candidateOutcome_spec hn row.name (finite_of_lookup he.finiteBaselines hb)
      (finite_of_lookup he.finiteCandidates hc)
    rw [metricDirection_eq _ _ hname] at heq
    have hout : row.outcome = candidateOutcome lib isclose baseline candidate (pointed row.name) := by
      rw [heq]
    rw [hout]
    exact ⟨baseline, candidate, hb, hc, by rw [heq], hspec⟩

/-- The report that the run commits has the values of the engine, each in its direction. Its
delta, read so, is right where the metric is maximised or neither is better, and nowhere
else. -/
theorem committed_delta_iff [LinearOrder V] [Zero V] (lib : Learning F M) (value : F → V) (isclose : F → F → Bool)
    (hn : Numeric lib value isclose) (backend : Configured F M) (prepared : PreparedTabularData F)
    (maxTrials : Option ℕ) (maxWallTimeSeconds : Option ℤ) (callback : Option (StageCallback F)) (s t : Session F)
    (result : TabularAutoMLResult F)
    (h : backend.run lib prepared maxTrials maxWallTimeSeconds callback s = (.ok result, t)) :
    ∃ payload, evaluationPayload result.evaluation = .ok payload ∧
      payload.baseline = metricValue result.evaluation.primaryMetric result.evaluation.baseline ∧
      payload.candidate = metricValue result.evaluation.primaryMetric result.evaluation.candidate ∧
      ((payload.pairedDelta.Gain value ↔
          Surpasses value result.evaluation.primaryMetric result.evaluation.candidate result.evaluation.baseline) ↔
        metricIsMaximized result.evaluation.primaryMetric = true ∨
          value result.evaluation.candidate = value result.evaluation.baseline) := by
  have he := Configured.run_evaluated h
  have hmetric := he.primaryMetric
  have hpayload : evaluationPayload result.evaluation = .ok {
      primaryMetric := result.evaluation.primaryMetric,
      baseline := durableMetric result.evaluation.primaryMetric result.evaluation.baseline,
      candidate := durableMetric result.evaluation.primaryMetric result.evaluation.candidate,
      pairedDelta := durableMetric result.evaluation.primaryMetric result.evaluation.pairedImprovement } := by
    simp only [evaluationPayload, primaryOf, hmetric, he.baseline, he.candidate]
    rfl
  refine ⟨_, hpayload, durableMetric_eq _ _, durableMetric_eq _ _, ?_⟩
  have hbetter := he.improvement_pos hn
  rw [← hmetric] at hbetter
  dsimp only
  rw [durableMetric_eq, ← hbetter]
  cases hmax : metricIsMaximized result.evaluation.primaryMetric with
  | true => simp [MetricValue.Gain, pointed, hmax]
  | false =>
    rw [hmetric] at hmax
    have hneg := hn.sub_neg _ _ he.finiteBaseline he.finiteCandidate
    have hpos := hn.sub_pos _ _ he.finiteBaseline he.finiteCandidate
    have himprovement : result.evaluation.pairedImprovement =
        lib.sub result.evaluation.baseline result.evaluation.candidate := by
      rw [he.improvement, hmax]
      rfl
    rw [himprovement, hpos]
    simp only [MetricValue.Gain, pointed, hmetric, hmax, Bool.false_eq_true, if_false, reduceCtorEq, false_and, true_and,
      false_or, hneg]
    -- a positive improvement under "minimize" reads as a loss
    constructor
    · intro hiff
      rcases lt_trichotomy (value result.evaluation.candidate) (value result.evaluation.baseline) with hlt | heq | hgt
      · exact absurd (hiff.mpr hlt) hlt.asymm
      · exact heq
      · exact absurd (hiff.mp hgt) hgt.asymm
    · intro heq
      rw [heq]

/-- A learning whose models remember their families, and whose baseline errs more. -/
def rememberingLearning : Learning ℚ String where
  crossValidate _ d := .ok ((scoring d.taskType).map fun name => (name, [1]))
  fit spec _ := .ok spec.family
  predict model _ _ taskType := .ok ((scoring taskType).map fun name => (name, if model = "DUMMY_REGRESSOR" then 2 else 1))
  render _ _ _ := .ok []
  dump model := .ok model
  sha256 := id
  stableHash _ _ _ := ""
  less a b := a < b
  sub a b := a - b
  neg a := -a
  mean values := values.headD 0
  std _ := 0
  isFinite _ := true

theorem rememberingLearning_numeric : Numeric rememberingLearning (fun x : ℚ => x) fun a b => decide (a = b) where
  less _ _ _ _ := decide_eq_true_iff
  sub_pos _ _ _ _ := sub_pos
  sub_neg _ _ _ _ := sub_neg
  close _ _ _ _ h := decide_eq_true h

/-- The sample is run to its end, and its candidate has the smaller error. -/
theorem remembering_run : ∃ prepared result t,
    prepareFrame splitters sampleHashes sampleTable samplePreparation = .ok prepared ∧
      (Configured.sklearn).run rememberingLearning prepared none none none (Session.start prepared) = (.ok result, t) ∧
      result.evaluation.primaryMetric = "rmse" ∧ result.evaluation.candidate = 1 ∧ result.evaluation.baseline = 2 := by
  have hvalues : ((prepareFrame splitters sampleHashes sampleTable samplePreparation).toOption.bind fun prepared =>
      ((Configured.sklearn).run rememberingLearning prepared none none none
        (Session.start prepared)).1.toOption.map fun result =>
          (result.evaluation.primaryMetric, result.evaluation.candidate, result.evaluation.baseline)) =
      some ("rmse", 1, 2) := by decide +kernel
  obtain ⟨prepared, hp, hrun⟩ := Option.bind_eq_some_iff.mp hvalues
  obtain ⟨result, hr, hv⟩ := Option.map_eq_some_iff.mp hrun
  cases hout : (Configured.sklearn).run rememberingLearning prepared none none none (Session.start prepared) with
  | mk r t =>
    rw [hout] at hr
    cases r with
    | error e => cases hr
    | ok delivered =>
      obtain rfl : delivered = result := Option.some.inj hr
      exact ⟨prepared, delivered, t, except_toOption_eq_some hp, hout, congrArg (·.1) hv, congrArg (·.2.1) hv,
        congrArg (·.2.2) hv⟩

theorem smaller_error_reported : ∃ result : TabularAutoMLResult ℚ, result.evaluation.pairedDelta.Gain (fun x => x) := by
  obtain ⟨prepared, result, t, hp, hrun, hmetric, hc, hb⟩ := remembering_run
  refine ⟨result, (improvement_reported rememberingLearning _ _ rememberingLearning_numeric toString _ _ _ _ prepared hp _
    none none none _ t result hrun).delta.mpr ?_⟩
  rw [hmetric, hc, hb]
  show (1 : ℚ) < 2
  decide

/-- A smaller error, committed as no gain. -/
theorem smaller_error_committed : ∃ (result : TabularAutoMLResult ℚ) (payload : EvaluationPayload ℚ),
    evaluationPayload result.evaluation = .ok payload ∧ result.evaluation.candidate < result.evaluation.baseline ∧
      ¬ payload.pairedDelta.Gain fun x => x := by
  obtain ⟨prepared, result, t, hp, hrun, hmetric, hc, hb⟩ := remembering_run
  obtain ⟨payload, hpayload, -, -, hdelta⟩ := committed_delta_iff rememberingLearning _ _ rememberingLearning_numeric
    .sklearn prepared none none none _ t result hrun
  refine ⟨result, payload, hpayload, by rw [hc, hb]; decide, fun hgain => ?_⟩
  rw [hmetric, hc, hb] at hdelta
  rcases hdelta.mp ⟨fun _ => show (1 : ℚ) < 2 by decide, fun _ => hgain⟩ with h | h
  · exact absurd h (by decide)
  · exact absurd h (by decide)

end AutomlApi.Engine
