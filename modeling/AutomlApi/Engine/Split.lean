import AutomlApi.Engine.Target
import AutomlApi.Library.Checked

/-! The split of a table into the rows a backend develops on, with the folds of its
cross-validation, and the rows of a holdout that stays sealed. Rows with one
fingerprint stay together; rows are numbered in the table, folds in the development
part. -/

namespace AutomlApi.Engine

open Positions (pick nonzero)

/-- What scikit-learn is asked for: two parts of a list of groups, and folds, each as
the positions to train on and the positions to validate on. -/
structure Splitters (F : Type) where
  trainTestSplit : List UInt64 → F → ℕ → Option (List (Cell F)) → Except EngineError (List UInt64 × List UInt64)
  stratifiedGroupKFold : ℕ → ℕ → FeatureFrame F → List (Cell F) → List UInt64 →
    Except EngineError (List (List ℕ × List ℕ))
  groupKFold : ℕ → FeatureFrame F → List (Cell F) → List UInt64 → Except EngineError (List (List ℕ × List ℕ))

structure FoldRecord where
  fold : ℕ
  trainRowIds : List String
  validationRowIds : List String
  deriving DecidableEq, Repr

structure SplitCore (F : Type) where
  strategy : String
  datasetSha256 : String
  seed : ℕ
  testSize : F
  cvFolds : ℕ
  developmentRowIds : List String
  testRowIds : List String
  folds : List FoldRecord
  deriving DecidableEq, Repr

/-- The split manifest. -/
structure SplitRecord (F : Type) extends SplitCore F where
  trainRows : ℕ
  validationRows : ℕ
  developmentRows : ℕ
  testRows : ℕ
  fingerprint : String
  holdoutSealed : Bool
  deriving DecidableEq, Repr

/-- The hashes: of a row of features, of a text, and of a split. -/
structure Hashes (F : Type) where
  row : List (Feature F) → UInt64
  sha256 : String → String
  split : SplitCore F → String

/-- The id under which a row is published. -/
def Hashes.rowId {F : Type} (hashes : Hashes F) (datasetSha256 : String) (position : ℕ) : String :=
  ((hashes.sha256 (datasetSha256 ++ ":" ++ toString position)).take 24).toString

/-- `_SealedHoldout`. -/
structure SealedHoldout (F : Type) where
  features : FeatureFrame F
  target : List (Cell F)
  opened : Bool := false
  openCount : ℕ := 0

/-- What `_freeze_split` returns. -/
structure FrozenSplit (F : Type) where
  developmentFeatures : FeatureFrame F
  developmentTarget : List (Cell F)
  developmentGroups : List UInt64
  sealedHoldout : SealedHoldout F
  cvSplits : List (List ℕ × List ℕ)
  split : SplitRecord F

/-- The identifiers of the rows of one fold, and of the folds from the `fold`-th on. -/
def foldRecord (rowIds : List String) (developmentPositions : List ℕ) (fold : ℕ) (split : List ℕ × List ℕ) :
    Except EngineError FoldRecord := do
  let train ← iloc developmentPositions split.1
  let trainRowIds ← iloc rowIds train
  let validation ← iloc developmentPositions split.2
  let validationRowIds ← iloc rowIds validation
  return { fold := fold, trainRowIds := trainRowIds, validationRowIds := validationRowIds }

def foldRecords (rowIds : List String) (developmentPositions : List ℕ) (fold : ℕ) :
    List (List ℕ × List ℕ) → Except EngineError (List FoldRecord)
  | [] => .ok []
  | split :: rest => do
    let record ← foldRecord rowIds developmentPositions fold split
    let records ← foldRecords rowIds developmentPositions (fold + 1) rest
    return record :: records

section Split

variable {F : Type} [Float64 F] [DecidableEq F]

/-- Whether labels are of two classes. -/
def bothClasses (target : List (Cell F)) : Bool := (target.map Cell.key).dedup.length == 2

/-- Every fold of a classification has both classes on both sides. -/
def checkFolds (developmentTarget : List (Cell F)) : List (List ℕ × List ℕ) → Except EngineError Unit
  | [] => .ok ()
  | (train, validation) :: rest => do
    let trained ← iloc developmentTarget train
    refuse .insufficientData (!bothClasses trained)
    let validated ← iloc developmentTarget validation
    refuse .insufficientData (!bothClasses validated)
    checkFolds developmentTarget rest

/-- Except where there are no classes. -/
def validateFolds (taskType : TaskType) (developmentTarget : List (Cell F)) (cvSplits : List (List ℕ × List ℕ)) :
    Except EngineError Unit :=
  if taskType = .binaryClassification then checkFolds developmentTarget cvSplits else .ok ()

/-- The holdout that scikit-learn draws, if it can. -/
def drawHoldout (sk : Splitters F) (uniqueGroups : List UInt64) (testSize : F) (seed : ℕ)
    (stratify : Option (List (Cell F))) : Except EngineError (List UInt64 × List UInt64) :=
  match sk.trainTestSplit uniqueGroups testSize seed stratify with
  | .error .valueError => .error .insufficientData
  | parts => parts

/-- The folds of the splitter for the task. -/
def Splitters.split (sk : Splitters F) (taskType : TaskType) (cvFolds seed : ℕ) (features : FeatureFrame F)
    (target : List (Cell F)) (groups : List UInt64) : Except EngineError (List (List ℕ × List ℕ)) :=
  match taskType with
  | .binaryClassification => sk.stratifiedGroupKFold cvFolds seed features target groups
  | .regression => sk.groupKFold cvFolds features target groups

/-- The smaller of two classes has a group for the holdout and for every fold. -/
def enoughOfEachClass (stratify : List (Cell F)) (cvFolds : ℕ) : Bool :=
  bothClasses stratify &&
    stratify.all fun value => cvFolds + 1 ≤ (stratify.map Cell.key).count value.key

/-- Each group once, with the label of its first row. -/
def groupFrame (groups : List UInt64) (target : List (Cell F)) : List (UInt64 × Cell F) :=
  (groups.zip target).eraseDupsBy fun a b => a.1 == b.1

/-- The rows of the groups that were not drawn for the test. -/
def developmentPositions (groups testGroupIds : List UInt64) : List ℕ :=
  nonzero ((groups.map (testGroupIds.contains ·)).map not)

def testPositions (groups testGroupIds : List UInt64) : List ℕ := nonzero (groups.map (testGroupIds.contains ·))

/-- `_freeze_split`. -/
def freezeSplit (sk : Splitters F) (hashes : Hashes F) (features : FeatureFrame F) (target : List (Cell F))
    (groups : List UInt64) (taskType : TaskType) (datasetSha256 : String) (seed : ℕ) (testSize : F) (cvFolds : ℕ) :
    Except EngineError (FrozenSplit F) := do
  let uniqueGroups := (groupFrame groups target).map Prod.fst
  let groupTargets := (groupFrame groups target).map Prod.snd
  refuse .insufficientData (uniqueGroups.length < max (2 * cvFolds) 10)
  let stratify := if taskType = .binaryClassification then some groupTargets else none
  refuse .insufficientData (taskType = .binaryClassification ∧ !enoughOfEachClass groupTargets cvFolds)
  let (_, testGroupIds) ← drawHoldout sk uniqueGroups testSize seed stratify
  let development := developmentPositions groups testGroupIds
  let test := testPositions groups testGroupIds
  refuse .insufficientData (development = [] ∨ test = [])
  let developmentFeatures ← features.iloc development
  let developmentTarget ← iloc target development
  let developmentGroups ← iloc groups development
  let holdoutFeatures ← features.iloc test
  let holdoutTarget ← iloc target test
  refuse .insufficientData
    (taskType = .binaryClassification ∧ (!bothClasses developmentTarget ∨ !bothClasses holdoutTarget))
  let cvSplits ← sk.split taskType cvFolds seed developmentFeatures developmentTarget developmentGroups
  validateFolds taskType developmentTarget cvSplits
  let rowIds := (List.range features.height).map (hashes.rowId datasetSha256)
  let folds ← foldRecords rowIds development 0 cvSplits
  let developmentRowIds ← iloc rowIds development
  let testRowIds ← iloc rowIds test
  let core : SplitCore F :=
    { strategy := if taskType = .binaryClassification then "STRATIFIED_GROUP_HOLDOUT" else "GROUP_HOLDOUT",
      datasetSha256 := datasetSha256, seed := seed, testSize := testSize, cvFolds := cvFolds,
      developmentRowIds := developmentRowIds, testRowIds := testRowIds, folds := folds }
  return {
    developmentFeatures := developmentFeatures, developmentTarget := developmentTarget,
    developmentGroups := developmentGroups,
    sealedHoldout := { features := holdoutFeatures, target := holdoutTarget }, cvSplits := cvSplits,
    split :=
      { toSplitCore := core, trainRows := development.length, validationRows := 0,
        developmentRows := development.length, testRows := test.length,
        fingerprint := hashes.split core, holdoutSealed := true } }

/-! ### What a split promises -/

/-- What scikit-learn documents of the folds of rows in groups: each row is validated
in one fold, a fold trains on the rest, and no group is on both of its sides. -/
structure GroupedFolds (groups : List UInt64) (folds : List (List ℕ × List ℕ)) : Prop where
  partition : (folds.flatMap Prod.snd).Perm (List.range groups.length)
  rest : ∀ fold ∈ folds, ∀ i < groups.length, i ∈ fold.1 ∨ i ∈ fold.2
  apart : ∀ fold ∈ folds, ∀ i ∈ fold.1, ∀ j ∈ fold.2, groups[i]? ≠ groups[j]?

/-- scikit-learn as documented. -/
structure Splitters.Documented (sk : Splitters F) : Prop where
  trainTestSplit : ∀ groups testSize seed stratify development test,
    sk.trainTestSplit groups testSize seed stratify = .ok (development, test) → (development ++ test).Perm groups
  stratifiedGroupKFold : ∀ nSplits seed features target groups folds,
    sk.stratifiedGroupKFold nSplits seed features target groups = .ok folds → GroupedFolds groups folds
  groupKFold : ∀ nSplits features target groups folds,
    sk.groupKFold nSplits features target groups = .ok folds → GroupedFolds groups folds

/-- `part` and `labels` are the rows `positions` of a table, in that order. -/
structure IsPart (features : FeatureFrame F) (target : List (Cell F)) (positions : List ℕ) (part : FeatureFrame F)
    (labels : List (Cell F)) : Prop where
  height : part.height = positions.length
  length : labels.length = positions.length
  row : ∀ k p, positions[k]? = some p → part.row k = features.row p ∧ labels[k]? = target[p]?

/-- A fold over the rows `development` trains on the rows `train` of the table, validates
on its rows `validation`, and is published as `record`. -/
structure FoldRows (groups : List UInt64) (rowId : ℕ → String) (development : List ℕ) (fold : List ℕ × List ℕ)
    (record : FoldRecord) (train validation : List ℕ) : Prop where
  trained : train = pick development fold.1
  validated : validation = pick development fold.2
  disjoint : ∀ p ∈ train, p ∉ validation
  together : ∀ p, p ∈ development ↔ p ∈ train ∨ p ∈ validation
  apart : ∀ p ∈ train, ∀ q ∈ validation, groups[p]? ≠ groups[q]?
  trainRowIds : record.trainRowIds = train.map rowId
  validationRowIds : record.validationRowIds = validation.map rowId

/-- The rows `development` and `test` of a table, as a split hands them out and publishes
them. -/
structure LeakageFree (features : FeatureFrame F) (target : List (Cell F)) (groups : List UInt64)
    (rowId : ℕ → String) (s : FrozenSplit F) (development test : List ℕ) : Prop where
  partition : (development ++ test).Perm (List.range features.height)
  developed : IsPart features target development s.developmentFeatures s.developmentTarget
  held : IsPart features target test s.sealedHoldout.features s.sealedHoldout.target
  apart : ∀ i ∈ development, ∀ j ∈ test, groups[i]? ≠ groups[j]?
  folds : List.Forall₂ (fun fold record => ∃ train validation,
    FoldRows groups rowId development fold record train validation) s.cvSplits s.split.folds
  validated : (s.cvSplits.flatMap fun fold => pick development fold.2).Perm development
  developmentRowIds : s.split.developmentRowIds = development.map rowId
  testRowIds : s.split.testRowIds = test.map rowId
  developmentRows : s.split.developmentRows = development.length ∧ s.split.trainRows = development.length
  testRows : s.split.testRows = test.length

omit [Float64 F] [DecidableEq F] in
theorem isPart_iloc {features part : FeatureFrame F} {target labels : List (Cell F)} {positions : List ℕ}
    (hf : features.Rectangular) (hpart : features.iloc positions = .ok part)
    (hlabels : iloc target positions = .ok labels) : IsPart features target positions part labels := by
  obtain ⟨hlt, hpick⟩ := iloc_eq_ok hlabels
  refine ⟨?_, ?_, fun k p hk => ⟨features.row_iloc hf hpart hk, ?_⟩⟩
  · rw [(FeatureFrame.iloc_eq_ok hpart).2]
  · rw [hpick, Positions.length_pick hlt]
  · rw [hpick, Positions.getElem?_pick hlt hk]

/-- Row ids are published for the rows they are computed from. -/
theorem iloc_rowIds {rowId : ℕ → String} {n : ℕ} {positions : List ℕ} {ids : List String}
    (h : iloc ((List.range n).map rowId) positions = .ok ids) : ids = positions.map rowId := by
  obtain ⟨hlt, rfl⟩ := iloc_eq_ok h
  rw [Positions.pick_map, Positions.pick_range fun p hp => by simpa using hlt p hp]

theorem foldRows_of_record {groups : List UInt64} {rowId : ℕ → String} {n index : ℕ} {development : List ℕ}
    {part : List UInt64} {fold : List ℕ × List ℕ} {record : FoldRecord}
    (hpart : iloc groups development = .ok part)
    (h : foldRecord ((List.range n).map rowId) development index fold = .ok record)
    (hrest : ∀ i < part.length, i ∈ fold.1 ∨ i ∈ fold.2)
    (hapart : ∀ i ∈ fold.1, ∀ j ∈ fold.2, part[i]? ≠ part[j]?) :
    ∃ train validation, FoldRows groups rowId development fold record train validation := by
  unfold foldRecord at h
  obtain ⟨train, htrain, h⟩ := except_bind_eq_ok h
  obtain ⟨trainIds, htrainIds, h⟩ := except_bind_eq_ok h
  obtain ⟨validation, hvalidation, h⟩ := except_bind_eq_ok h
  obtain ⟨validationIds, hvalidationIds, h⟩ := except_bind_eq_ok h
  cases h
  obtain ⟨hin, hgroups⟩ := iloc_eq_ok hpart
  obtain ⟨htr, rfl⟩ := iloc_eq_ok htrain
  obtain ⟨hva, rfl⟩ := iloc_eq_ok hvalidation
  have hlen : part.length = development.length := by rw [hgroups, Positions.length_pick hin]
  have hgroup {i p : ℕ} (hi : development[i]? = some p) : part[i]? = groups[p]? := by
    rw [hgroups, Positions.getElem?_pick hin hi]
  -- a row on both sides would put its group there
  have hsides : ∀ p ∈ pick development fold.1, ∀ q ∈ pick development fold.2, groups[p]? ≠ groups[q]? := by
    intro p hp q hq
    obtain ⟨i, hi, hip⟩ := Positions.mem_pick.mp hp
    obtain ⟨j, hj, hjq⟩ := Positions.mem_pick.mp hq
    rw [← hgroup hip, ← hgroup hjq]
    exact hapart i hi j hj
  refine ⟨_, _, ⟨rfl, rfl, fun p hp hq => hsides p hp p hq rfl, fun p => ?_, hsides, iloc_rowIds htrainIds,
    iloc_rowIds hvalidationIds⟩⟩
  constructor
  · intro hp
    obtain ⟨i, hi, hip⟩ := List.mem_iff_getElem.mp hp
    have hip' : development[i]? = some p := by rw [List.getElem?_eq_getElem hi, hip]
    rcases hrest i (hlen ▸ hi) with hf | hf
    · exact .inl (Positions.mem_pick.mpr ⟨i, hf, hip'⟩)
    · exact .inr (Positions.mem_pick.mpr ⟨i, hf, hip'⟩)
  · rintro (hp | hp)
    all_goals
      obtain ⟨i, -, hip⟩ := Positions.mem_pick.mp hp
      exact List.mem_of_getElem? hip

/-- The folds of a split, one by one with their records. -/
theorem foldRows_of_records {groups : List UInt64} {rowId : ℕ → String} {n index : ℕ} {development : List ℕ}
    {part : List UInt64} {folds : List (List ℕ × List ℕ)} {records : List FoldRecord}
    (hpart : iloc groups development = .ok part)
    (h : foldRecords ((List.range n).map rowId) development index folds = .ok records)
    (hrest : ∀ fold ∈ folds, ∀ i < part.length, i ∈ fold.1 ∨ i ∈ fold.2)
    (hapart : ∀ fold ∈ folds, ∀ i ∈ fold.1, ∀ j ∈ fold.2, part[i]? ≠ part[j]?) :
    List.Forall₂ (fun fold record => ∃ train validation,
      FoldRows groups rowId development fold record train validation) folds records := by
  induction folds generalizing index records with
  | nil => cases h; exact .nil
  | cons fold folds ih =>
    unfold foldRecords at h
    obtain ⟨record, hrecord, h⟩ := except_bind_eq_ok h
    obtain ⟨rest, hrecords, h⟩ := except_bind_eq_ok h
    cases h
    refine .cons (foldRows_of_record hpart hrecord (hrest fold List.mem_cons_self) (hapart fold List.mem_cons_self))
      (ih hrecords (fun f hf => hrest f (List.mem_cons_of_mem fold hf))
        fun f hf => hapart f (List.mem_cons_of_mem fold hf))

/-- The folds validate the development rows, each in one of them. -/
theorem validated_perm {development : List ℕ} {folds : List (List ℕ × List ℕ)}
    (h : (folds.flatMap Prod.snd).Perm (List.range development.length)) :
    (folds.flatMap fun fold => pick development fold.2).Perm development := by
  have hflat : (folds.flatMap fun fold => pick development fold.2) = pick development (folds.flatMap Prod.snd) := by
    simp only [pick, List.filterMap_flatMap]
  rw [hflat]
  conv_rhs => rw [← Positions.pick_all development]
  exact h.filterMap _

/-- What a split takes the development part from. -/
structure Developed (sk : Splitters F) (features : FeatureFrame F) (target : List (Cell F)) (groups : List UInt64)
    (taskType : TaskType) (seed : ℕ) (testSize : F) (cvFolds : ℕ) (s : FrozenSplit F)
    (testGroupIds : List UInt64) : Prop where
  drawn : ∃ developmentGroupIds, drawHoldout sk ((groupFrame groups target).map Prod.fst) testSize seed
    (if taskType = .binaryClassification then some ((groupFrame groups target).map Prod.snd) else none) =
      .ok (developmentGroupIds, testGroupIds)
  developedFeatures : features.iloc (developmentPositions groups testGroupIds) = .ok s.developmentFeatures
  developedTarget : iloc target (developmentPositions groups testGroupIds) = .ok s.developmentTarget
  developedGroups : iloc groups (developmentPositions groups testGroupIds) = .ok s.developmentGroups
  folds : sk.split taskType cvFolds seed s.developmentFeatures s.developmentTarget s.developmentGroups = .ok s.cvSplits

/-- What a split that is accepted consists of. -/
theorem freezeSplit_eq_ok {sk : Splitters F} {hashes : Hashes F} {features : FeatureFrame F}
    {target : List (Cell F)} {groups : List UInt64} {taskType : TaskType} {datasetSha256 : String} {seed : ℕ}
    {testSize : F} {cvFolds : ℕ} {s : FrozenSplit F}
    (h : freezeSplit sk hashes features target groups taskType datasetSha256 seed testSize cvFolds = .ok s) :
    ∃ testGroupIds, Developed sk features target groups taskType seed testSize cvFolds s testGroupIds ∧
      features.iloc (testPositions groups testGroupIds) = .ok s.sealedHoldout.features ∧
      iloc target (testPositions groups testGroupIds) = .ok s.sealedHoldout.target ∧
      foldRecords ((List.range features.height).map (hashes.rowId datasetSha256))
        (developmentPositions groups testGroupIds) 0 s.cvSplits = .ok s.split.folds ∧
      iloc ((List.range features.height).map (hashes.rowId datasetSha256))
        (developmentPositions groups testGroupIds) = .ok s.split.developmentRowIds ∧
      iloc ((List.range features.height).map (hashes.rowId datasetSha256))
        (testPositions groups testGroupIds) = .ok s.split.testRowIds ∧
      s.split.developmentRows = (developmentPositions groups testGroupIds).length ∧
      s.split.trainRows = (developmentPositions groups testGroupIds).length ∧
      s.split.testRows = (testPositions groups testGroupIds).length := by
  unfold freezeSplit at h
  obtain ⟨-, h⟩ := refuse_bind_eq_ok h
  obtain ⟨-, h⟩ := refuse_bind_eq_ok h
  obtain ⟨⟨developmentGroupIds, testGroupIds⟩, hdrawn, h⟩ := except_bind_eq_ok h
  obtain ⟨-, h⟩ := refuse_bind_eq_ok h
  obtain ⟨developmentFeatures, hdf, h⟩ := except_bind_eq_ok h
  obtain ⟨developmentTarget, hdt, h⟩ := except_bind_eq_ok h
  obtain ⟨developmentGroups, hdg, h⟩ := except_bind_eq_ok h
  obtain ⟨holdoutFeatures, hhf, h⟩ := except_bind_eq_ok h
  obtain ⟨holdoutTarget, hht, h⟩ := except_bind_eq_ok h
  obtain ⟨-, h⟩ := refuse_bind_eq_ok h
  obtain ⟨cvSplits, hcv, h⟩ := except_bind_eq_ok h
  obtain ⟨-, -, h⟩ := except_bind_eq_ok h
  obtain ⟨folds, hfolds, h⟩ := except_bind_eq_ok h
  obtain ⟨developmentRowIds, hdr, h⟩ := except_bind_eq_ok h
  obtain ⟨testRowIds, htr, h⟩ := except_bind_eq_ok h
  cases h
  exact ⟨testGroupIds, ⟨⟨developmentGroupIds, hdrawn⟩, hdf, hdt, hdg, hcv⟩, hhf, hht, hfolds, hdr, htr, rfl, rfl, rfl⟩

/-- A split keeps the rows of a fingerprint together, and publishes what it hands out. -/
theorem freezeSplit_leakageFree {sk : Splitters F} {hashes : Hashes F} {features : FeatureFrame F}
    {target : List (Cell F)} {groups : List UInt64} {taskType : TaskType} {datasetSha256 : String} {seed : ℕ}
    {testSize : F} {cvFolds : ℕ} {s : FrozenSplit F} (hsk : sk.Documented) (hf : features.Rectangular)
    (hgroups : groups.length = features.height)
    (h : freezeSplit sk hashes features target groups taskType datasetSha256 seed testSize cvFolds = .ok s) :
    ∃ development test, LeakageFree features target groups (hashes.rowId datasetSha256) s development test := by
  obtain ⟨testGroupIds, hd, hhf, hht, hfolds, hdr, htr, hrows, htrained, htested⟩ := freezeSplit_eq_ok h
  have hgrouped : GroupedFolds s.developmentGroups s.cvSplits := by
    have hfolds := hd.folds
    cases taskType with
    | binaryClassification => exact hsk.stratifiedGroupKFold _ _ _ _ _ _ hfolds
    | regression => exact hsk.groupKFold _ _ _ _ _ hfolds
  have hlen : s.developmentGroups.length = (developmentPositions groups testGroupIds).length := by
    obtain ⟨hin, hpick⟩ := iloc_eq_ok hd.developedGroups
    rw [hpick, Positions.length_pick hin]
  have hheight : (groups.map (testGroupIds.contains ·)).length = features.height := by rw [List.length_map, hgroups]
  refine ⟨developmentPositions groups testGroupIds, testPositions groups testGroupIds, ?_⟩
  exact {
    partition := hheight ▸ Positions.nonzero_perm _
    developed := isPart_iloc hf hd.developedFeatures hd.developedTarget
    held := isPart_iloc hf hhf hht
    apart := by
      intro i hi j hj he
      rw [developmentPositions, Positions.mem_nonzero_not, List.getElem?_map] at hi
      rw [testPositions, Positions.mem_nonzero, List.getElem?_map, ← he] at hj
      rw [hj] at hi
      cases hi
    folds := foldRows_of_records hd.developedGroups hfolds hgrouped.rest hgrouped.apart
    validated := validated_perm (hlen ▸ hgrouped.partition)
    developmentRowIds := iloc_rowIds hdr
    testRowIds := iloc_rowIds htr
    developmentRows := ⟨hrows, htrained⟩
    testRows := htested }

end Split

end AutomlApi.Engine
