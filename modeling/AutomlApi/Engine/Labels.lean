import AutomlApi.Engine.Target
import AutomlApi.Library.Json
import Mathlib.Data.List.Sort

/-! The labels of a binary target, from the values that pandas hands out. The classes come
from `unique` and the rows from `map`, and these hand out different objects for one value of
a column: both are brought to scalars of JSON before they are compared. -/

namespace AutomlApi.Engine

inductive DateUnit where
  | s | ms | us | ns
  deriving DecidableEq, Repr

def DateUnit.perSecond : DateUnit → ℤ
  | s => 1
  | ms => 1000
  | us => 1000000
  | ns => 1000000000

/-- The types of columns of times: `datetime64`, with a time zone or without one, and
`timedelta64`. -/
inductive Stamps where
  | datetime (unit : DateUnit) (zone : Option String)
  | timedelta (unit : DateUnit)
  deriving DecidableEq, Repr

/-- Python has a `datetime` or a `timedelta` for the value. -/
def Stamps.Representable : Stamps → ℤ → Prop
  | datetime .ns _, _ | timedelta .ns, _ => False
  | datetime unit _, n => -62135596800 ≤ n / unit.perSecond ∧ n / unit.perSecond ≤ 253402300799
  | timedelta unit, n => -999999999 ≤ n / (86400 * unit.perSecond) ∧ n / (86400 * unit.perSecond) ≤ 999999999

instance (k : Stamps) (n : ℤ) : Decidable (k.Representable n) := by
  unfold Stamps.Representable
  split <;> infer_instance

/-- The type of the cells of a target. -/
inductive Kind where
  | bool | int | float | str | stamp (k : Stamps) | other
  deriving DecidableEq, Repr

/-- A cell of a target, which is none that is missing. Bytes, decimals, dates and other
objects are in `other`. -/
inductive Label (F : Type) where
  | bool (b : Bool)
  | int (i : ℤ)
  | float (x : F)
  | str (s : String)
  | stamp (k : Stamps) (n : ℤ)
  | other (s : String)
  deriving DecidableEq, Repr

def Label.kind {F : Type} : Label F → Kind
  | bool _ => .bool
  | int _ => .int
  | float _ => .float
  | str _ => .str
  | stamp k _ => .stamp k
  | other _ => .other

/-- A column of cells of one type. -/
structure Target (F : Type) where
  name : String
  kind : Kind
  categorical : Bool := false
  cells : List (Label F)
  typed : ∀ c ∈ cells, c.kind = kind

/-- An object that pandas hands out: a scalar of numpy, a `Timestamp`, or an object of Python. -/
inductive Handed (F : Type) where
  | numpy (value : Label F)
  | timestamp (k : Stamps) (n : ℤ)
  | plain (cell : Cell F)

section Labels

variable {F : Type} [Float64 F] [DecidableEq F]

-- `isoformat()` of the times of each type.
variable (isoformat : Stamps → ℤ → String)

/-! ### What pandas hands out -/

/-- The cell as an object of Python. -/
def Label.cell : Label F → Cell F
  | bool b => .bool b
  | int i => .int i
  | float x => .float x
  | str s => .str s
  | stamp k n => .other (isoformat k n)
  | other s => .other s

/-- What the cell is equal to in its column. -/
def Label.key : Label F → Key F ⊕ (Stamps × ℤ)
  | stamp k n => .inr (k, n)
  | c => .inl (c.cell fun _ _ => "").key

/-- An object of the array that `unique` returns. A categorical column is unpacked. -/
def Label.unique (categorical : Bool) : Label F → Handed F
  | str s => .plain (.str s)
  | stamp (.datetime unit (some zone)) n => .timestamp (.datetime unit (some zone)) n
  | stamp (.datetime unit none) n =>
    if categorical then .timestamp (.datetime unit none) n else .numpy (stamp (.datetime unit none) n)
  | stamp (.timedelta unit) n =>
    if categorical then .plain (.other (isoformat (.timedelta unit) n)) else .numpy (stamp (.timedelta unit) n)
  | other s => .plain (.other s)
  | c => if categorical then .plain (c.cell isoformat) else .numpy c

/-- What `map` calls its function with. -/
def Label.mapped : Label F → Handed F
  | stamp (.datetime unit zone) n => .timestamp (.datetime unit zone) n
  | c => .plain (c.cell isoformat)

/-- `item()` of a scalar of numpy: a time that Python has no object for is a number. -/
def Label.item : Label F → Cell F
  | stamp k n => if k.Representable n then .other (isoformat k n) else .int n
  | c => c.cell isoformat

/-- `_json_scalar`. -/
def jsonScalar : Handed F → Cell F
  | .numpy value => value.item isoformat
  | .timestamp k n => .str (isoformat k n)
  | .plain cell => cell

/-- The first of each of the values. -/
def firsts : List (Label F) → List (Label F)
  | [] => []
  | c :: rest => c :: (firsts rest).filter fun d => d.key ≠ c.key

/-! ### The order of the classes -/

/-- An escape of `json.dumps` with `ensure_ascii`. -/
def asciiEscape (c : Char) : List Char :=
  let unicode (n : ℕ) : List Char :=
    ['\\', 'u', Quoted.hexDigit (n / 4096), Quoted.hexDigit (n / 256 % 16), Quoted.hexDigit (n / 16 % 16), Quoted.hexDigit (n % 16)]
  match Quoted.short.find? (·.1 = c) with
  | some p => ['\\', p.2]
  | none =>
    if 32 ≤ c.toNat ∧ c.toNat ≤ 126 then [c]
    else if c.toNat < 65536 then unicode c.toNat
    else unicode (55296 + (c.toNat - 65536) / 1024) ++ unicode (56320 + (c.toNat - 65536) % 1024)

/-- `_stable_sort_key`. -/
def stableSortKey : Cell F → Except EngineError String
  | .missing => .ok "NaN"
  | .bool b => .ok (if b then "true" else "false")
  | .int i => .ok (toString i)
  | .float x =>
    .ok (if Float64.isInf x then if Float64.repr x = "-inf" then "-Infinity" else "Infinity" else Float64.repr x)
  | .str s => .ok (String.ofList ('"' :: (s.toList.flatMap asciiEscape ++ ['"'])))
  | .nested _ _ | .other _ => .error .typeError

def keyed (value : Cell F) : Except EngineError (String × Cell F) := (stableSortKey value).map fun key => (key, value)

namespace Target

variable (target : Target F)

/-- The column as the engine reads it. -/
def series : Series F where
  name := target.name
  dtype :=
    if target.categorical then .categorical
    else
      match target.kind with
      | .bool => .bool
      | .int => .integer
      | .float => .float
      | .stamp (.datetime _ _) => .datetime
      | .stamp (.timedelta _) => .other
      | .str | .other => .object
  cells := target.cells.map (Label.cell isoformat)

/-- The scalar of a cell among the classes. -/
def scalar (c : Label F) : Cell F := jsonScalar isoformat (c.unique isoformat target.categorical)

/-- The classes, in the order of their texts. -/
def classes : Except EngineError (List (Cell F)) :=
  (((firsts target.cells).map (target.scalar isoformat)).mapM keyed).map fun l =>
    (l.insertionSort fun a b => a.1 ≤ b.1).map Prod.snd

/-- The code of each row. -/
def encoded (selectedPositive : Cell F) : List ℕ :=
  target.cells.map fun c => (scalarEqual (jsonScalar isoformat (c.mapped isoformat)) selectedPositive).toNat

end Target

/-- An exception of the engine, with the classes that its context has. -/
structure Refusal (F : Type) where
  error : EngineError
  classes : List (Cell F) := []
  deriving DecidableEq, Repr

/-- `_choose_positive_class`, with the context of its exception. -/
def chosen (classes : List (Cell F)) (requested : Option (Cell F)) : Except (Refusal F) (Cell F) :=
  (choosePositiveClass classes requested).mapError fun error =>
    match error with
    | .positiveClassRequired n => ⟨.positiveClassRequired n, classes⟩
    | error => ⟨error, []⟩

/-- The metric of a binary task. -/
def binaryMetric (primaryMetric : Option String) : Except EngineError String :=
  validatePrimaryMetric ((primaryMetric.filter (· ≠ "")).getD "average_precision") .binaryClassification

/-- `_prepare_target` of a binary task: the code of each row, and the task. -/
def encodeTarget (target : Target F) (positiveClass : Option (Cell F)) (primaryMetric : Option String) :
    Except (Refusal F) (List ℕ × TaskRecord F) := do
  let classes ← (target.classes isoformat).mapError (Refusal.mk · [])
  let selectedPositive ← chosen classes positiveClass
  refuse (Refusal.mk .invalidTarget [])
    (¬ (0 ∈ target.encoded isoformat selectedPositive ∧ 1 ∈ target.encoded isoformat selectedPositive))
  let metric ← (binaryMetric primaryMetric).mapError (Refusal.mk · [])
  return (target.encoded isoformat selectedPositive,
    { taskType := .binaryClassification, primaryMetric := metric, positiveClass := some selectedPositive,
      negativeClass := classes.find? fun value => !scalarEqual value selectedPositive,
      positiveClassInferred := positiveClass.isNone })

end Labels

end AutomlApi.Engine
