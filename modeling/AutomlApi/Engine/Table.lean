import Mathlib.Data.Int.Notation
import AutomlApi.Library.Checked
import AutomlApi.Library.Positions

/-! Tables as the engine reads them: typed columns of cells. From the raw columns the
engine keeps those it can learn from, turns their cells into features, and gives each
row the fingerprint of its features. -/

namespace AutomlApi.Engine

open Positions (pick)

/-- What the engine does with a binary64 number: an integer rounded to one, the integer
it is equal to (both zeros are 0), whether it is infinite, and its text. A NaN is a
missing cell. -/
class Float64 (F : Type) where
  ofInt : ℤ → F
  toInt? : F → Option ℤ
  isInf : F → Bool
  repr : F → String

inductive Cell (F : Type) where
  | missing
  | bool (b : Bool)
  | int (i : ℤ)
  | float (x : F)
  | str (s : String)
  | nested (s : String) (hashable : Bool)
  | other (s : String)
  deriving DecidableEq, Repr

inductive DType where
  | bool
  | integer
  | float
  | datetime
  | object
  | string
  | categorical
  | other
  deriving DecidableEq, Repr

structure Series (F : Type) where
  name : String
  dtype : DType
  cells : List (Cell F)

/-- A table that was parsed: every column has a cell in every row, and a name of its
own. -/
structure Table (F : Type) where
  series : List (Series F)
  height : ℕ
  rectangular : ∀ s ∈ series, s.cells.length = height
  named : (series.map Series.name).Nodup

/-- The exceptions of the engine, with what they report. -/
inductive EngineError where
  | missingTarget
  | allNullTarget
  | targetContainsMissing (missingRows : ℕ)
  | constantTarget
  | invalidTarget
  | multiclassTarget (classCount : ℕ)
  | positiveClassRequired (classCount : ℕ)
  | noUsableFeatures
  | targetLeakage (columns : List String)
  | conflictingDuplicateLabels (conflictingGroupCount : ℕ)
  | insufficientData
  | modelTraining
  | typeError
  | valueError
  | indexError
  deriving DecidableEq, Repr

/-- `strip()`. -/
def strip (s : String) : String :=
  String.ofList ((s.toList.dropWhile Char.isWhitespace).reverse.dropWhile Char.isWhitespace).reverse

section Cells

variable {F : Type} [Float64 F]

/-- What a cell is equal to under `==`: a bool is a number, and a float may be equal to
an int. -/
inductive Key (F : Type) where
  | missing
  | int (i : ℤ)
  | float (x : F)
  | str (s : String)
  | nested (s : String)
  | other (s : String)
  deriving DecidableEq, Repr

def Cell.key : Cell F → Key F
  | .missing => .missing
  | .bool b => .int b.toNat
  | .int i => .int i
  | .float x =>
    match Float64.toInt? x with
    | some i => .int i
    | none => .float x
  | .str s => .str s
  | .nested s _ => .nested s
  | .other s => .other s

/-- `pd.isna`. -/
def Cell.isna : Cell F → Bool
  | .missing => true
  | _ => false

def Cell.sameType : Cell F → Cell F → Bool
  | .missing, .missing | .bool _, .bool _ | .int _, .int _ | .float _, .float _ | .str _, .str _
  | .nested _ _, .nested _ _ | .other _, .other _ => true
  | _, _ => false

/-- `str(value)`. -/
def Cell.text : Cell F → String
  | .missing => "nan"
  | .bool true => "True"
  | .bool false => "False"
  | .int i => toString i
  | .float x => Float64.repr x
  | .str s => s
  | .nested s _ => s
  | .other s => s

variable [DecidableEq F]

/-- `_scalar_equal`. -/
def scalarEqual (left right : Cell F) : Bool := left.sameType right && left.key == right.key

def Series.dropna (s : Series F) : List (Cell F) := s.cells.filter (!·.isna)

/-- How many different values there are, which hashes every one of them. -/
def distinct (cells : List (Cell F)) : Except EngineError ℕ :=
  if cells.any fun cell => match cell with | .nested _ hashable => !hashable | _ => false then .error .typeError
  else .ok (cells.map Cell.key).dedup.length

/-- `nunique(dropna=True)`. -/
def Series.nunique (s : Series F) : Except EngineError ℕ := distinct s.dropna

/-- `_series_values_equal`. -/
def seriesValuesEqual (left right : Series F) : Bool :=
  left.cells.length = right.cells.length &&
    (left.cells.zip right.cells).all fun c => (c.1.isna && c.2.isna) || (!c.1.isna && scalarEqual c.1 c.2)

end Cells

/-! ### Features -/

/-- A prepared cell. -/
inductive Feature (F : Type) where
  | nan
  | number (x : F)
  | text (s : String)
  deriving DecidableEq, Repr

structure FeatureColumn (F : Type) where
  name : String
  values : List (Feature F)
  deriving DecidableEq, Repr

structure FeatureFrame (F : Type) where
  columns : List (FeatureColumn F)
  height : ℕ
  deriving DecidableEq, Repr

def FeatureFrame.row {F : Type} (f : FeatureFrame F) (i : ℕ) : List (Feature F) :=
  f.columns.map fun c => c.values.getD i .nan

/-- Every column has a value in every row. -/
def FeatureFrame.Rectangular {F : Type} (f : FeatureFrame F) : Prop := ∀ c ∈ f.columns, c.values.length = f.height

/-- `features.iloc[positions].reset_index(drop=True)`. -/
def FeatureFrame.iloc {F : Type} (f : FeatureFrame F) (positions : List ℕ) : Except EngineError (FeatureFrame F) :=
  if positions.all (· < f.height) then
    .ok ⟨f.columns.map fun c => ⟨c.name, pick c.values positions⟩, positions.length⟩
  else .error .indexError

/-- `iloc` of a column or of an array. -/
def iloc {α : Type} (l : List α) (positions : List ℕ) : Except EngineError (List α) :=
  if positions.all (· < l.length) then .ok (pick l positions) else .error .indexError

theorem iloc_eq_ok {α : Type} {l xs : List α} {positions : List ℕ} (h : iloc l positions = .ok xs) :
    (∀ p ∈ positions, p < l.length) ∧ xs = pick l positions := by
  unfold iloc at h
  split at h
  · next hp => exact ⟨fun p hm => by simpa using List.all_eq_true.mp hp p hm, (Except.ok.inj h).symm⟩
  · cases h

theorem FeatureFrame.iloc_eq_ok {F : Type} {f part : FeatureFrame F} {positions : List ℕ}
    (h : f.iloc positions = .ok part) :
    (∀ p ∈ positions, p < f.height) ∧ part = ⟨f.columns.map fun c => ⟨c.name, pick c.values positions⟩, positions.length⟩ := by
  unfold FeatureFrame.iloc at h
  split at h
  · next hp => exact ⟨fun p hm => by simpa using List.all_eq_true.mp hp p hm, (Except.ok.inj h).symm⟩
  · cases h

/-- The rows of a part are rows of the frame. -/
theorem FeatureFrame.row_iloc {F : Type} {f part : FeatureFrame F} {positions : List ℕ} (hf : f.Rectangular)
    (h : f.iloc positions = .ok part) {k p : ℕ} (hk : positions[k]? = some p) : part.row k = f.row p := by
  obtain ⟨hlt, rfl⟩ := iloc_eq_ok h
  simp only [row, List.map_map]
  refine List.map_congr_left fun c hc => ?_
  have hlt' : ∀ p ∈ positions, p < c.values.length := fun p hm => (hf c hc).symm ▸ hlt p hm
  simp only [Function.comp_apply, List.getD_eq_getElem?_getD, Positions.getElem?_pick hlt' hk]

inductive Exclusion where
  | allMissing
  | datetimeRequiresPolicy
  | constant
  | nestedValues
  | highCardinality
  | unsupportedDtype
  deriving DecidableEq, Repr

def Exclusion.reason : Exclusion → String
  | .allMissing => "ALL_MISSING"
  | .datetimeRequiresPolicy => "DATETIME_REQUIRES_POLICY"
  | .constant => "CONSTANT"
  | .nestedValues => "NESTED_VALUES"
  | .highCardinality => "HIGH_CARDINALITY"
  | .unsupportedDtype => "UNSUPPORTED_DTYPE"

/-- What becomes of one column. -/
inductive Screening (F : Type) where
  | excluded (reason : Exclusion)
  | numeric (values : List (Feature F))
  | categorical (values : List (Feature F))
  deriving DecidableEq, Repr

section Features

variable {F : Type} [Float64 F]

/-- `pd.to_numeric(series, errors="coerce").astype("float64")` on one cell; `none` is a NaN. -/
def Cell.toNumeric : Cell F → Option F
  | .bool b => some (Float64.ofInt b.toNat)
  | .int i => some (Float64.ofInt i)
  | .float x => some x
  | _ => none

/-- A number that was coerced, with the infinite ones masked. -/
def Cell.finite (cell : Cell F) : Option F := cell.toNumeric.filter fun x => !Float64.isInf x

def Cell.numericFeature (cell : Cell F) : Feature F := cell.finite.elim .nan .number

def Cell.categoricalFeature (cell : Cell F) : Feature F := if cell.isna then .nan else .text cell.text

def Cell.isNested : Cell F → Bool
  | .nested _ _ => true
  | _ => false

def DType.isNumeric : DType → Bool
  | .bool | .integer | .float => true
  | _ => false

/-- bool, object, string and categorical columns. -/
def DType.isCategory : DType → Bool
  | .bool | .object | .string | .categorical => true
  | _ => false

def DType.isNumber (dtype : DType) : Bool := dtype.isNumeric && dtype != .bool

variable [DecidableEq F]

/-- The numbers that a column has in its cells, but for the infinite ones. -/
def Series.numbers (s : Series F) : List (Key F) := (s.cells.filterMap Cell.finite).map fun x => (Cell.float x).key

/-- The body of the loop of `_prepare_features`: how many infinite values the column
had, and what becomes of it. -/
def prepareColumn (maxCategories : ℕ) (s : Series F) : Except EngineError (ℕ × Screening F) :=
  if s.cells.all Cell.isna then .ok (0, .excluded .allMissing)
  else if s.dtype = .datetime then .ok (0, .excluded .datetimeRequiresPolicy)
  else if s.dtype.isNumber then
    let infinite := (s.cells.filterMap Cell.toNumeric).countP Float64.isInf
    if s.numbers.dedup.length ≤ 1 then .ok (infinite, .excluded .constant)
    else .ok (infinite, .numeric (s.cells.map Cell.numericFeature))
  else if s.dtype.isCategory then
    if (s.dropna.take 1000).any Cell.isNested then .ok (0, .excluded .nestedValues)
    else do
      let cardinality ← s.nunique
      return (0,
        if cardinality ≤ 1 then .excluded .constant
        else if maxCategories < cardinality then .excluded .highCardinality
        else .categorical (s.cells.map Cell.categoricalFeature))
  else .ok (0, .excluded .unsupportedDtype)

/-- What the loop has built. -/
structure PreparedFeatures (F : Type) where
  columns : List (FeatureColumn F) := []
  numericColumns : List String := []
  categoricalColumns : List String := []
  excluded : List (String × Exclusion) := []
  infiniteValues : ℕ := 0

def PreparedFeatures.cons (p : PreparedFeatures F) (name : String) (infinite : ℕ) : Screening F → PreparedFeatures F
  | .excluded reason =>
    { p with excluded := (name, reason) :: p.excluded, infiniteValues := infinite + p.infiniteValues }
  | .numeric values =>
    { p with
      columns := ⟨name, values⟩ :: p.columns, numericColumns := name :: p.numericColumns,
      infiniteValues := infinite + p.infiniteValues }
  | .categorical values =>
    { p with
      columns := ⟨name, values⟩ :: p.columns, categoricalColumns := name :: p.categoricalColumns,
      infiniteValues := infinite + p.infiniteValues }

/-- `_prepare_features`. -/
def prepareFeatures (maxCategories : ℕ) : List (Series F) → Except EngineError (PreparedFeatures F)
  | [] => .ok {}
  | s :: rest => do
    let (infinite, screening) ← prepareColumn maxCategories s
    let p ← prepareFeatures maxCategories rest
    return p.cons s.name infinite screening

/-! ### The columns that are kept -/

inductive Role where
  | numeric
  | categorical
  deriving DecidableEq, Repr

/-- How a column can be learned from: it has two numbers, or it has a bounded number of
categories, two at least. -/
def Series.role (maxCategories : ℕ) (s : Series F) : Option Role :=
  if s.dtype.isNumber then if 1 < s.numbers.dedup.length then some .numeric else none
  else if s.dtype.isCategory && !(s.dropna.take 1000).any Cell.isNested then
    if 1 < (s.dropna.map Cell.key).dedup.length && (s.dropna.map Cell.key).dedup.length ≤ maxCategories then
      some .categorical
    else none
  else none

def Series.column (s : Series F) : Role → FeatureColumn F
  | .numeric => ⟨s.name, s.cells.map Cell.numericFeature⟩
  | .categorical => ⟨s.name, s.cells.map Cell.categoricalFeature⟩

def Series.screening (s : Series F) : Role → Screening F
  | .numeric => .numeric (s.cells.map Cell.numericFeature)
  | .categorical => .categorical (s.cells.map Cell.categoricalFeature)

theorem distinct_eq_ok {cells : List (Cell F)} {n : ℕ} (h : distinct cells = .ok n) :
    n = (cells.map Cell.key).dedup.length := by
  unfold distinct at h
  split at h
  · cases h
  · exact (Except.ok.inj h).symm

/-- A column without any value has neither numbers nor categories. -/
theorem role_of_all_isna {maxCategories : ℕ} {s : Series F} (h : s.cells.all Cell.isna) : s.role maxCategories = none := by
  have hmissing : ∀ cell ∈ s.cells, cell = .missing := by
    intro cell hc
    have := List.all_eq_true.mp h cell hc
    cases cell <;> simp_all [Cell.isna]
  have hnumbers : s.numbers = [] := by
    simp only [Series.numbers, List.map_eq_nil_iff, List.filterMap_eq_nil_iff]
    intro cell hc
    rw [hmissing cell hc]; rfl
  have hdropna : s.dropna = [] := by
    simp only [Series.dropna, List.filter_eq_nil_iff]
    intro cell hc
    rw [hmissing cell hc]; simp [Cell.isna]
  simp [Series.role, hnumbers, hdropna]

/-- A column is kept in its role, or it is excluded. -/
theorem prepareColumn_eq {maxCategories infinite : ℕ} {s : Series F} {screening : Screening F}
    (h : prepareColumn maxCategories s = .ok (infinite, screening)) :
    (∃ role, s.role maxCategories = some role ∧ screening = s.screening role) ∨
      s.role maxCategories = none ∧ ∃ reason, screening = .excluded reason := by
  unfold prepareColumn at h
  split at h
  · next hna => cases h; exact .inr ⟨role_of_all_isna hna, _, rfl⟩
  split at h
  · next hdate =>
    cases h
    exact .inr ⟨by simp [Series.role, hdate, DType.isNumber, DType.isNumeric, DType.isCategory], _, rfl⟩
  split at h
  · next hnumber =>
    simp only at h
    split at h
    · next hone => cases h; exact .inr ⟨by simp [Series.role, hnumber, hone], _, rfl⟩
    · next hmany => cases h; exact .inl ⟨.numeric, by simp [Series.role, hnumber]; omega, rfl⟩
  next hnumber =>
  split at h
  · next hcategory =>
    split at h
    · next hnested => cases h; exact .inr ⟨by simp [Series.role, hnumber, hnested], _, rfl⟩
    next hnested =>
    obtain ⟨n, hn, h⟩ := except_bind_eq_ok h
    have hn := distinct_eq_ok hn
    cases h
    split
    · next hone => exact .inr ⟨by simp [Series.role, hnumber]; omega, _, rfl⟩
    split
    · next hmany => exact .inr ⟨by simp [Series.role, hnumber]; omega, _, rfl⟩
    · next hone hmany =>
      refine .inl ⟨.categorical, ?_, rfl⟩
      rw [Series.role, if_neg hnumber, if_pos (by simp [hcategory, hnested]), if_pos]
      simp only [Bool.and_eq_true, decide_eq_true_eq]
      omega
  · next hcategory => cases h; exact .inr ⟨by simp [Series.role, hnumber, hcategory], _, rfl⟩

/-- The features are the columns that have a role, each in its role. -/
theorem prepareFeatures_eq {maxCategories : ℕ} {series : List (Series F)} {p : PreparedFeatures F}
    (h : prepareFeatures maxCategories series = .ok p) :
    p.columns = series.filterMap (fun s => (s.role maxCategories).map s.column) ∧
      p.numericColumns = (series.filter fun s => s.role maxCategories == some .numeric).map Series.name ∧
      p.categoricalColumns = (series.filter fun s => s.role maxCategories == some .categorical).map Series.name := by
  induction series generalizing p with
  | nil => cases h; exact ⟨rfl, rfl, rfl⟩
  | cons s rest ih =>
    unfold prepareFeatures at h
    obtain ⟨⟨infinite, screening⟩, hs, h⟩ := except_bind_eq_ok h
    obtain ⟨q, hq, h⟩ := except_bind_eq_ok h
    cases h
    obtain ⟨hcolumns, hnumeric, hcategorical⟩ := ih hq
    rcases prepareColumn_eq hs with ⟨role, hrole, rfl⟩ | ⟨hrole, reason, rfl⟩
    · cases role <;>
        simp [PreparedFeatures.cons, Series.screening, Series.column, hrole, hcolumns, hnumeric, hcategorical]
    · simp [PreparedFeatures.cons, hrole, hcolumns, hnumeric, hcategorical]

/-- `_row_fingerprints`, from the hash of one row. -/
def rowFingerprints (hash : List (Feature F) → UInt64) (features : FeatureFrame F) : List UInt64 :=
  (List.range features.height).map fun i => hash (features.row i)

/-- `_validate_duplicate_labels`. -/
def validateDuplicateLabels (groups : List UInt64) (target : List (Cell F)) : Except EngineError Unit :=
  let conflicting := groups.eraseDups.filter fun g =>
    1 < (((groups.zip target).filter (·.1 == g)).map fun p => p.2.key).dedup.length
  if conflicting = [] then .ok () else .error (.conflictingDuplicateLabels conflicting.length)

end Features

end AutomlApi.Engine
