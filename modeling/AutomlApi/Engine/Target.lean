import AutomlApi.Engine.Table

/-! The target of a table: which task it poses, and how its labels are encoded. -/

namespace AutomlApi.Engine

inductive TaskType where
  | binaryClassification
  | regression
  deriving DecidableEq, Repr

def TaskType.name : TaskType → String
  | .binaryClassification => "BINARY_CLASSIFICATION"
  | .regression => "REGRESSION"

/-- The task record of a plan. -/
structure TaskRecord (F : Type) where
  taskType : TaskType
  primaryMetric : String
  positiveClass : Option (Cell F)
  negativeClass : Option (Cell F)
  positiveClassInferred : Bool
  targetColumnId : String := ""
  deriving DecidableEq, Repr

section Target

variable {F : Type} [Float64 F] [DecidableEq F]

/-- `_resolve_task_type`. -/
def resolveTaskType (target : Series F) (requested : Option String) : Except EngineError TaskType := do
  let uniqueCount ← distinct target.cells
  match requested with
  | some requested =>
    let normalized := strip requested.toUpper
    if normalized = TaskType.binaryClassification.name then
      if uniqueCount ≠ 2 then .error (.multiclassTarget uniqueCount)
      else return .binaryClassification
    else if normalized = TaskType.regression.name then
      if !target.dtype.isNumber then .error .invalidTarget
      else return .regression
    else .error .invalidTarget
  | none =>
    if uniqueCount = 2 then return .binaryClassification
    if !target.dtype.isNumber then .error (.multiclassTarget uniqueCount)
    else if target.dtype = .integer ∧ uniqueCount ≤ 20 then .error (.multiclassTarget uniqueCount)
    else return .regression

/-- `_validate_primary_metric`. -/
def validatePrimaryMetric (metric : String) (taskType : TaskType) : Except EngineError String :=
  let normalized := strip metric.toLower
  let allowed :=
    match taskType with
    | .binaryClassification => ["average_precision", "roc_auc", "log_loss", "accuracy"]
    | .regression => ["rmse", "mae", "r2"]
  if normalized ∈ allowed then .ok normalized else .error .invalidTarget

def Cell.isBool : Cell F → Bool
  | .bool _ => true
  | _ => false

def Cell.isNumber : Cell F → Bool
  | .int _ | .float _ => true
  | _ => false

/-- `_choose_positive_class`. -/
def choosePositiveClass (classes : List (Cell F)) (requested : Option (Cell F)) : Except EngineError (Cell F) :=
  match requested with
  | some requested =>
    match classes.find? (scalarEqual · requested) with
    | some value => .ok value
    | none => .error .invalidTarget
  | none =>
    let labels :=
      classes.length = 2 && (classes.all Cell.isBool ||
        classes.all fun value => value.isNumber && (value.key == .int 0 || value.key == .int 1))
    match classes.find? (·.key == .int 1) with
    | some value => if labels then .ok value else .error (.positiveClassRequired classes.length)
    | none => .error (.positiveClassRequired classes.length)

/-- `_prepare_target`: the labels in the order of the rows, and the task. -/
def prepareTarget (target : Series F) (taskType : TaskType) (positiveClass : Option (Cell F))
    (primaryMetric : Option String) : Except EngineError (List (Cell F) × TaskRecord F) :=
  match taskType with
  | .regression => do
    if target.cells.any fun cell => cell.finite.isNone then .error .invalidTarget
    let metric ← validatePrimaryMetric ((primaryMetric.filter (· ≠ "")).getD "rmse") taskType
    return (target.cells.map fun cell => cell.toNumeric.elim .missing .float,
      { taskType := taskType, primaryMetric := metric, positiveClass := none, negativeClass := none,
        positiveClassInferred := false })
  | .binaryClassification => do
    let classes := target.cells.eraseDupsBy fun a b => a.key == b.key
    let selectedPositive ← choosePositiveClass classes positiveClass
    let encoded : List (Cell F) := target.cells.map fun value => .int (scalarEqual value selectedPositive).toNat
    if ¬ (.int 0 ∈ encoded ∧ .int 1 ∈ encoded) then .error .invalidTarget
    let metric ← validatePrimaryMetric ((primaryMetric.filter (· ≠ "")).getD "average_precision") taskType
    return (encoded,
      { taskType := taskType, primaryMetric := metric, positiveClass := some selectedPositive,
        negativeClass := classes.find? fun value => !scalarEqual value selectedPositive,
        positiveClassInferred := positiveClass.isNone })

end Target

end AutomlApi.Engine
