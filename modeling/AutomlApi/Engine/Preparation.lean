import AutomlApi.Engine.Sklearn

/-! What is done with a table before a backend sees it: the checks of its target, the
choice of its features and the split. -/

namespace AutomlApi.Engine

structure QualityIssue where
  code : String
  severity : String := "WARNING"
  message : String
  remediation : Option String := none
  deriving DecidableEq, Repr

/-- The data quality report. -/
structure ProfileRecord where
  engineVersion : String
  datasetSha256 : String
  sourceName : String
  mediaType : String
  rowCount : ℕ
  columnCount : ℕ
  targetColumn : String
  targetMissingCount : ℕ
  numericFeatureColumns : List String
  categoricalFeatureColumns : List String
  excludedColumns : List (String × Exclusion)
  infiniteValues : ℕ
  exactDuplicateFeatureGroups : ℕ
  qualityScore : ℕ
  issues : List QualityIssue
  deriving DecidableEq, Repr

/-- `PreparedTabularData`. -/
structure PreparedTabularData (F : Type) where
  datasetSha256 : String
  sourceName : String
  mediaType : String
  targetColumn : String
  taskType : TaskType
  seed : ℕ
  features : FeatureFrame F
  developmentFeatures : FeatureFrame F
  developmentTarget : List (Cell F)
  developmentGroups : List UInt64
  sealedHoldout : SealedHoldout F
  cvSplits : List (List ℕ × List ℕ)
  numericColumns : List String
  categoricalColumns : List String
  profile : ProfileRecord
  task : TaskRecord F
  split : SplitRecord F

/-- What a table is prepared for. -/
structure Preparation (F : Type) where
  datasetSha256 : String
  sourceName : String
  mediaType : String
  targetColumn : Option String
  requestedTaskType : Option String
  positiveClass : Option (Cell F)
  requestedPrimaryMetric : Option String
  seed : ℕ
  testSize : F
  cvFolds : ℕ
  maxCategories : ℕ
  engineVersion : String

section Preparation

variable {F : Type} [Float64 F] [DecidableEq F]

def qualityIssues (excluded : List (String × Exclusion)) (infiniteValues : ℕ) : List QualityIssue :=
  let issues := excluded.map fun item : String × Exclusion =>
    ({ code := "FEATURE_EXCLUDED_" ++ item.2.reason,
       message := "Feature " ++ item.1 ++ " was excluded: " ++ item.2.reason ++ "." } : QualityIssue)
  if infiniteValues = 0 then issues
  else issues ++ [
    { code := "INFINITE_VALUES_NORMALIZED",
      message := "Infinite numeric values were treated as missing before fold fitting.",
      remediation := some "Inspect the source data for invalid numeric values." }]

/-- The target column, once it is named and found. -/
def findTarget (frame : Table F) (targetColumn : Option String) : Except EngineError (Series F) :=
  match frame.series.find? fun s => some s.name == targetColumn with
  | some target => if strip target.name = "" then .error .missingTarget else .ok target
  | none => .error .missingTarget

/-- The columns that are left when the target is dropped. -/
def Table.rawFeatures (frame : Table F) (target : Series F) : List (Series F) :=
  frame.series.filter (·.name != target.name)

/-- `_prepare_frame`. -/
def prepareFrame (sk : Splitters F) (hashes : Hashes F) (frame : Table F) (q : Preparation F) :
    Except EngineError (PreparedTabularData F) := do
  let target ← findTarget frame q.targetColumn
  refuse .allNullTarget (target.cells.all Cell.isna)
  let missingTargetCount := target.cells.countP Cell.isna
  refuse (.targetContainsMissing missingTargetCount) (missingTargetCount ≠ 0)
  let uniqueTargetCount ← distinct target.cells
  refuse .constantTarget (uniqueTargetCount < 2)
  let resolvedTask ← resolveTaskType target q.requestedTaskType
  let (encodedTarget, taskRecord) ← prepareTarget target resolvedTask q.positiveClass q.requestedPrimaryMetric
  let rawFeatures := frame.rawFeatures target
  refuse .noUsableFeatures (rawFeatures = [])
  let leakingColumns := (rawFeatures.filter (seriesValuesEqual · target)).map Series.name
  refuse (.targetLeakage leakingColumns) (leakingColumns ≠ [])
  let prepared ← prepareFeatures q.maxCategories rawFeatures
  refuse .noUsableFeatures (prepared.numericColumns = [] ∧ prepared.categoricalColumns = [])
  let features : FeatureFrame F := ⟨prepared.columns, frame.height⟩
  let groups := rowFingerprints hashes.row features
  validateDuplicateLabels groups encodedTarget
  let duplicateGroupCount := groups.eraseDups.countP fun g => 1 < groups.count g
  let issues := qualityIssues prepared.excluded prepared.infiniteValues
  let frozen ← freezeSplit sk hashes features encodedTarget groups resolvedTask q.datasetSha256 q.seed q.testSize q.cvFolds
  return {
    datasetSha256 := q.datasetSha256, sourceName := q.sourceName, mediaType := q.mediaType,
    targetColumn := target.name, taskType := resolvedTask, seed := q.seed, features := features,
    developmentFeatures := frozen.developmentFeatures, developmentTarget := frozen.developmentTarget,
    developmentGroups := frozen.developmentGroups, sealedHoldout := frozen.sealedHoldout,
    cvSplits := frozen.cvSplits, numericColumns := prepared.numericColumns,
    categoricalColumns := prepared.categoricalColumns,
    profile :=
      { engineVersion := q.engineVersion, datasetSha256 := q.datasetSha256, sourceName := q.sourceName,
        mediaType := q.mediaType, rowCount := frame.height, columnCount := frame.series.length,
        targetColumn := target.name, targetMissingCount := missingTargetCount,
        numericFeatureColumns := prepared.numericColumns, categoricalFeatureColumns := prepared.categoricalColumns,
        excludedColumns := prepared.excluded, infiniteValues := prepared.infiniteValues,
        exactDuplicateFeatureGroups := duplicateGroupCount,
        qualityScore := 100 - min 80 (5 * issues.length), issues := issues },
    task := { taskRecord with targetColumnId := target.name }, split := frozen.split }

/-! ### The rows that are handed out are rows of the table -/

/-- The features and the labels of a table, row by row: a feature of a row comes from a
cell of that row, and so does its label. -/
structure OfTable (frame : Table F) (target : Series F) (features : FeatureFrame F) (encoded : List (Cell F)) :
    Prop where
  height : features.height = frame.height
  rectangular : features.Rectangular
  columns : ∀ c ∈ features.columns, ∃ s ∈ frame.series, ∃ role, s.name ≠ target.name ∧ c = s.column role
  labels : ∃ encode : Cell F → Cell F, encoded = target.cells.map encode ∧ target ∈ frame.series

omit [Float64 F] [DecidableEq F] in
theorem findTarget_mem {frame : Table F} {targetColumn : Option String} {target : Series F}
    (h : findTarget frame targetColumn = .ok target) : target ∈ frame.series := by
  unfold findTarget at h
  split at h
  · next s hs =>
    split at h
    · cases h
    · cases h; exact List.mem_of_find?_eq_some hs
  · cases h

/-- Labels are encoded one by one. -/
theorem prepareTarget_map {target : Series F} {taskType : TaskType} {positiveClass : Option (Cell F)}
    {primaryMetric : Option String} {encoded : List (Cell F)} {task : TaskRecord F}
    (h : prepareTarget target taskType positiveClass primaryMetric = .ok (encoded, task)) :
    ∃ encode : Cell F → Cell F, encoded = target.cells.map encode := by
  cases taskType with
  | regression =>
    simp only [prepareTarget] at h
    split at h
    · cases h
    · obtain ⟨metric, -, h⟩ := except_bind_eq_ok h
      cases h
      exact ⟨_, rfl⟩
  | binaryClassification =>
    simp only [prepareTarget] at h
    obtain ⟨selected, -, h⟩ := except_bind_eq_ok h
    split at h
    · cases h
    · obtain ⟨metric, -, h⟩ := except_bind_eq_ok h
      cases h
      exact ⟨_, rfl⟩

theorem ofTable_prepared {maxCategories : ℕ} {frame : Table F} {target : Series F} {p : PreparedFeatures F}
    {encode : Cell F → Cell F} (htarget : target ∈ frame.series)
    (h : prepareFeatures maxCategories (frame.rawFeatures target) = .ok p) :
    OfTable frame target ⟨p.columns, frame.height⟩ (target.cells.map encode) := by
  have hcolumns : ∀ c ∈ p.columns, ∃ s ∈ frame.series, ∃ role, s.name ≠ target.name ∧ c = s.column role := by
    intro c hc
    rw [(prepareFeatures_eq h).1, List.mem_filterMap] at hc
    obtain ⟨s, hs, hc⟩ := hc
    obtain ⟨role, -, rfl⟩ := Option.map_eq_some_iff.mp hc
    obtain ⟨hs, hne⟩ := List.mem_filter.mp hs
    exact ⟨s, hs, role, by simpa using hne, rfl⟩
  refine ⟨rfl, fun c hc => ?_, hcolumns, _, rfl, htarget⟩
  obtain ⟨s, hs, role, -, rfl⟩ := hcolumns c hc
  cases role <;> simp only [Series.column, List.length_map, frame.rectangular s hs]

/-- The split in prepared data. -/
def PreparedTabularData.frozen (prepared : PreparedTabularData F) : FrozenSplit F where
  developmentFeatures := prepared.developmentFeatures
  developmentTarget := prepared.developmentTarget
  developmentGroups := prepared.developmentGroups
  sealedHoldout := prepared.sealedHoldout
  cvSplits := prepared.cvSplits
  split := prepared.split

/-- The parts of a table that is accepted: its target and labels, its features and its
split. -/
structure Accepted (sk : Splitters F) (hashes : Hashes F) (frame : Table F) (q : Preparation F)
    (prepared : PreparedTabularData F) (target : Series F) (encoded : List (Cell F)) (task : TaskRecord F)
    (p : PreparedFeatures F) : Prop where
  found : findTarget frame q.targetColumn = .ok target
  taskType : resolveTaskType target q.requestedTaskType = .ok prepared.taskType
  labelled : prepareTarget target prepared.taskType q.positiveClass q.requestedPrimaryMetric = .ok (encoded, task)
  recorded : prepared.task = { task with targetColumnId := target.name }
  chosen : prepareFeatures q.maxCategories (frame.rawFeatures target) = .ok p
  framed : prepared.features = ⟨p.columns, frame.height⟩
  numericColumns : prepared.numericColumns = p.numericColumns
  categoricalColumns : prepared.categoricalColumns = p.categoricalColumns
  seed : prepared.seed = q.seed
  frozen : freezeSplit sk hashes prepared.features encoded (rowFingerprints hashes.row prepared.features)
    prepared.taskType q.datasetSha256 q.seed q.testSize q.cvFolds = .ok prepared.frozen

theorem prepareFrame_eq_ok {sk : Splitters F} {hashes : Hashes F} {frame : Table F} {q : Preparation F}
    {prepared : PreparedTabularData F} (h : prepareFrame sk hashes frame q = .ok prepared) :
    ∃ target encoded task p, Accepted sk hashes frame q prepared target encoded task p := by
  unfold prepareFrame at h
  obtain ⟨target, htarget, h⟩ := except_bind_eq_ok h
  obtain ⟨-, h⟩ := refuse_bind_eq_ok h
  obtain ⟨-, h⟩ := refuse_bind_eq_ok h
  obtain ⟨n, -, h⟩ := except_bind_eq_ok h
  obtain ⟨-, h⟩ := refuse_bind_eq_ok h
  obtain ⟨taskType, htype, h⟩ := except_bind_eq_ok h
  obtain ⟨⟨encoded, task⟩, hencoded, h⟩ := except_bind_eq_ok h
  obtain ⟨-, h⟩ := refuse_bind_eq_ok h
  obtain ⟨-, h⟩ := refuse_bind_eq_ok h
  obtain ⟨p, hp, h⟩ := except_bind_eq_ok h
  obtain ⟨-, h⟩ := refuse_bind_eq_ok h
  obtain ⟨-, -, h⟩ := except_bind_eq_ok h
  obtain ⟨frozen, hfrozen, h⟩ := except_bind_eq_ok h
  cases h
  exact ⟨target, encoded, task, p, htarget, htype, hencoded, rfl, hp, rfl, rfl, rfl, rfl, hfrozen⟩

theorem Accepted.ofTable {sk : Splitters F} {hashes : Hashes F} {frame : Table F} {q : Preparation F}
    {prepared : PreparedTabularData F} {target : Series F} {encoded : List (Cell F)} {task : TaskRecord F}
    {p : PreparedFeatures F} (h : Accepted sk hashes frame q prepared target encoded task p) :
    OfTable frame target prepared.features encoded := by
  obtain ⟨encode, hencode⟩ := prepareTarget_map h.labelled
  rw [h.framed, hencode]
  exact ofTable_prepared (findTarget_mem h.found) h.chosen

/-- Every accepted table is split without leakage. -/
theorem prepareFrame_leakageFree {sk : Splitters F} {hashes : Hashes F} {frame : Table F} {q : Preparation F}
    {prepared : PreparedTabularData F} (hsk : sk.Documented) (h : prepareFrame sk hashes frame q = .ok prepared) :
    ∃ target encoded development test, findTarget frame q.targetColumn = .ok target ∧
      OfTable frame target prepared.features encoded ∧
      LeakageFree prepared.features encoded (rowFingerprints hashes.row prepared.features)
        (hashes.rowId q.datasetSha256) prepared.frozen development test := by
  obtain ⟨target, encoded, task, p, ha⟩ := prepareFrame_eq_ok h
  obtain ⟨development, test, hfree⟩ := freezeSplit_leakageFree hsk ha.ofTable.rectangular
    (by rw [rowFingerprints, List.length_map, List.length_range]) ha.frozen
  exact ⟨target, encoded, development, test, ha.found, ha.ofTable, hfree⟩

end Preparation

/-- Eleven rows, two of them alike. -/
def sampleTable : Table ℚ where
  series := [
    { name := "x", dtype := .integer, cells := [0, 1, 2, 3, 4, 5, 6, 7, 8, 9, 3].map .int },
    { name := "y", dtype := .integer, cells := [5, 7, 6, 9, 8, 2, 3, 1, 4, 0, 9].map .int }]
  height := 11
  rectangular := by decide
  named := by decide

def sampleHashes : Hashes ℚ where
  row features := match features with
    | .number x :: _ => UInt64.ofNat x.num.toNat
    | _ => 0
  sha256 := id
  split _ := ""

def samplePreparation : Preparation ℚ where
  datasetSha256 := "d"
  sourceName := "uploaded-table"
  mediaType := "text/csv"
  targetColumn := some "y"
  requestedTaskType := some "REGRESSION"
  positiveClass := none
  requestedPrimaryMetric := none
  seed := 1729
  testSize := 1 / 5
  cvFolds := 3
  maxCategories := 128
  engineVersion := "1"

theorem sampleTable_leakageFree :
    ∃ prepared, prepareFrame splitters sampleHashes sampleTable samplePreparation = .ok prepared ∧
      ∃ target encoded development test, findTarget sampleTable samplePreparation.targetColumn = .ok target ∧
        OfTable sampleTable target prepared.features encoded ∧
        LeakageFree prepared.features encoded (rowFingerprints sampleHashes.row prepared.features)
          (sampleHashes.rowId samplePreparation.datasetSha256) prepared.frozen development test := by
  cases h : prepareFrame splitters sampleHashes sampleTable samplePreparation with
  | error e =>
    have hok : (prepareFrame splitters sampleHashes sampleTable samplePreparation).isOk = true := by decide +kernel
    rw [h] at hok
    cases hok
  | ok prepared => exact ⟨prepared, rfl, prepareFrame_leakageFree splitters_documented h⟩

end AutomlApi.Engine
