import AutomlApi.Engine.Selecting
import AutomlApi.Library.Integers

/-! The backends as they are configured, and the trials they publish: however a backend
comes by its trials, there is one at least, and they stay within the budget of the run. -/

namespace AutomlApi.Engine

open Act (check raise)

variable {F M : Type}

/-- `except (BackendUnavailableError, ModelTrainingError): raise`, and any other
exception as a failed training. -/
def rescued : Raised → Raised
  | .exception type =>
    if type ∈ ["BackendUnavailableError", "ModelTrainingError", "BackendWallTimeExceededError"] then .exception type
    else modelTrainingError
  | .interrupt => .interrupt

def rescue {α : Type} (m : Act (Session F) Raised α) : Act (Session F) Raised α := fun s =>
  match m s with
  | (.ok a, t) => (.ok a, t)
  | (.error e, t) => (.error (rescued e), t)

/-! ### AutoGluon -/

/-- `_time_limit_seconds`, on the text in the environment. -/
def timeLimitSeconds (raw : String) (maxWallTimeSeconds : Option ℤ) : Except Raised ℤ :=
  match Integers.int raw.toList with
  | none => .error modelTrainingError
  | some value =>
    if ¬ (5 ≤ value ∧ value ≤ 3600) then .error modelTrainingError
    else match maxWallTimeSeconds with
      | none => .ok value
      | some wall =>
        if wall < 1 then .error modelTrainingError
        else .ok (max 1 (min value (wall - min 10 (max 1 (wall / 4)))))

/-- `portfolio[: min(len(portfolio), max_trials or len(portfolio))]`. -/
def portfolio (maxTrials : Option ℕ) : List String :=
  let families := ["RF", "XT", "LR"]
  families.take (min families.length (match maxTrials with
    | some (n + 1) => n + 1
    | _ => families.length))

structure LeaderboardRow (F : Type) where
  model : String
  scoreVal : F

/-- A predictor after its fit: its leaderboard, which may lack the scores, its best model,
and that model once it is fitted on all rows and packed. -/
structure Predictor (F M : Type) where
  leaderboard : List (LeaderboardRow F)
  scored : Bool
  modelBest : String
  deployed : Except Raised (M × String)

/-- AutoGluon and its settings. -/
structure AutoGluon (F M : Type) where
  timeLimit : String := "20"
  fit : PreparedTabularData F → List String → ℤ → Except Raised (Predictor F M)
  upper : String → String
  zero : F

/-- `-score` where the metric is minimised. -/
def turned (lib : Learning F M) (metric : String) (score : F) : F :=
  if metricIsMaximized metric then score else lib.neg score

def AutoGluon.family (autogluon : AutoGluon F M) (model : String) : String :=
  "AUTOGLUON_" ++ String.ofList ((autogluon.upper model).toList.map fun c => if c = ' ' then '_' else c)

/-- The trial of a row, if its score is finite. -/
def AutoGluon.rowTrial (autogluon : AutoGluon F M) (lib : Learning F M) (metric : String) (seed : ℕ)
    (row : LeaderboardRow F × ℕ) : Option (TrialRecord F) :=
  if lib.isFinite row.1.scoreVal then
    let score := turned lib metric row.1.scoreVal
    let spec : CandidateSpec :=
      ⟨autogluon.family row.1.model, [("model", row.1.model), ("selection_split", "FROZEN_CV_FOLD_0")]⟩
    some {
      configHash := lib.stableHash "autogluon" spec seed, trialNumber := row.2, spec := spec,
      succeeded := some ([(metric, ⟨score, autogluon.zero⟩)], score), evaluationProtocol := some "HOLDOUT_VALIDATION" }
  else none

/-- What is trained between the PLAN stage and the assembly. -/
def AutoGluon.train (autogluon : AutoGluon F M) (lib : Learning F M) (prepared : PreparedTabularData F)
    (families : List String) (timeLimit : ℤ) : Except Raised (NativeCandidate F M) := do
  let predictor ← autogluon.fit prepared families (max 1 (timeLimit / 2))
  if predictor.leaderboard.isEmpty || !predictor.scored then .error modelTrainingError
  else match predictor.leaderboard.find? (·.model == predictor.modelBest) with
    | none => .error modelTrainingError
    | some selected =>
      let metric := prepared.task.primaryMetric
      let score := turned lib metric selected.scoreVal
      let trials := (predictor.leaderboard.take families.length).zipIdx.filterMap
        (autogluon.rowTrial lib metric prepared.seed)
      if trials.isEmpty then .error modelTrainingError
      else do
        let (fitted, modelBytes) ← predictor.deployed
        return {
          backendId := "autogluon",
          spec := ⟨autogluon.family predictor.modelBest,
            [("presets", "medium_quality"), ("hyperparameters", ",".intercalate families),
              ("time_limit_seconds", toString timeLimit), ("num_cpus", "1"), ("num_gpus", "0"),
              ("weighted_ensemble", "False"), ("selected_model", predictor.modelBest), ("refit_full", "True")]⟩,
          developmentMetrics := [(metric, ⟨score, autogluon.zero⟩)], fittedCandidate := fitted,
          modelBytes := modelBytes, nativeTrials := some trials }

/-- `AutoGluonBackend.run` once the data is prepared. -/
def AutoGluon.run (autogluon : AutoGluon F M) (lib : Learning F M) (prepared : PreparedTabularData F)
    (maxTrials : Option ℕ) (maxWallTimeSeconds : Option ℤ) (callback : Option (StageCallback F)) :
    Act (Session F) Raised (TabularAutoMLResult F) := do
  notify callback (.plan prepared.task prepared.split)
  let timeLimit ← check (timeLimitSeconds autogluon.timeLimit maxWallTimeSeconds)
  rescue do
    let native ← check (autogluon.train lib prepared (portfolio maxTrials) timeLimit)
    assembleNativeResult lib prepared native callback

/-! ### TabPFN -/

/-- TabPFN and its settings: its metrics on a fold, its model of all development rows, and
whether the deadline has passed at a stage. -/
structure TabPFN (F M : Type) where
  device : String
  checkpoint : String
  foldMetrics : PreparedTabularData F → ℕ → List ℕ × List ℕ → Except Raised (List (String × F))
  fitAll : PreparedTabularData F → Except Raised (M × String)
  expired : String → Bool

/-- `_check_deadline`. -/
def TabPFN.checkDeadline (tabpfn : TabPFN F M) (stage : String) : Except Raised Unit :=
  if tabpfn.expired stage then .error (.exception "BackendWallTimeExceededError") else .ok ()

/-- `values.setdefault(name, []).append(value)`. -/
def appendValue (values : List (String × List F)) (metric : String × F) : List (String × List F) :=
  match values with
  | [] => [(metric.1, [metric.2])]
  | entry :: rest =>
    if entry.1 = metric.1 then (entry.1, entry.2 ++ [metric.2]) :: rest else entry :: appendValue rest metric

/-- The folds from the `fold`-th on, onto the values so far. -/
def TabPFN.foldValues (tabpfn : TabPFN F M) (prepared : PreparedTabularData F) (fold : ℕ)
    (values : List (String × List F)) : List (List ℕ × List ℕ) → Except Raised (List (String × List F))
  | [] => .ok values
  | split :: rest => do
    tabpfn.checkDeadline ("before_fold_" ++ toString fold)
    let metrics ← tabpfn.foldMetrics prepared fold split
    tabpfn.checkDeadline ("after_fold_" ++ toString fold)
    tabpfn.foldValues prepared (fold + 1) (metrics.foldl appendValue values) rest

/-- `_development_metrics`. -/
def TabPFN.developmentMetrics (tabpfn : TabPFN F M) (lib : Learning F M) (prepared : PreparedTabularData F) :
    Except Raised (List (String × Metric F)) := do
  let values ← tabpfn.foldValues prepared 0 [] prepared.cvSplits
  return values.map fun entry => (entry.1, ⟨lib.mean entry.2, lib.std entry.2⟩)

def TabPFN.train (tabpfn : TabPFN F M) (lib : Learning F M) (prepared : PreparedTabularData F) :
    Except Raised (NativeCandidate F M) := do
  let developmentMetrics ← tabpfn.developmentMetrics lib prepared
  tabpfn.checkDeadline "before_final_fit"
  let (fitted, modelBytes) ← tabpfn.fitAll prepared
  tabpfn.checkDeadline "after_final_fit"
  return {
    backendId := "tabpfn",
    spec := ⟨"TABPFN_FOUNDATION_MODEL",
      [("checkpoint", tabpfn.checkpoint), ("device", tabpfn.device), ("n_estimators", "4"), ("fit_mode", "low_memory"),
        ("preprocessing", "median_plus_ordinal_no_scaling"), ("artifact_exportable", "False")]⟩,
    developmentMetrics := developmentMetrics, fittedCandidate := fitted, modelBytes := modelBytes,
    nativeTrials := none }

/-- The rows and the features that TabPFN is given at most. -/
def TabPFN.checkSize (tabpfn : TabPFN F M) (prepared : PreparedTabularData F) : Except Raised Unit :=
  let maxRows := if tabpfn.device = "cpu" then 1000 else 100000
  if maxRows < prepared.features.height then .error modelTrainingError
  else if 2000 < prepared.features.columns.length then .error modelTrainingError
  else .ok ()

/-- `TabPFNBackend.run` once the data is prepared. -/
def TabPFN.run (tabpfn : TabPFN F M) (lib : Learning F M) (prepared : PreparedTabularData F)
    (callback : Option (StageCallback F)) : Act (Session F) Raised (TabularAutoMLResult F) := do
  notify callback (.plan prepared.task prepared.split)
  check (tabpfn.checkDeadline "after_data_preparation")
  check (tabpfn.checkSize prepared)
  rescue do
    let native ← check (tabpfn.train lib prepared)
    assembleNativeResult lib prepared native callback

/-! ### Trials within a budget -/

/-- The backends of the default registry. -/
inductive Configured (F M : Type) where
  | sklearn
  | autogluon (autogluon : AutoGluon F M)
  | tabpfn (tabpfn : TabPFN F M)

def Configured.run (backend : Configured F M) (lib : Learning F M) (prepared : PreparedTabularData F)
    (maxTrials : Option ℕ) (maxWallTimeSeconds : Option ℤ) (callback : Option (StageCallback F)) :
    Act (Session F) Raised (TabularAutoMLResult F) :=
  match backend with
  | .sklearn => (Backend.builtIn prepared maxTrials).run lib prepared callback
  | .autogluon a => a.run lib prepared maxTrials maxWallTimeSeconds callback
  | .tabpfn p => p.run lib prepared callback

/-- There are trials, they are numbered upwards, and their numbers are within the budget. -/
structure WithinBudget (maxTrials : Option ℕ) (trials : List (TrialRecord F)) : Prop where
  nonempty : trials ≠ []
  ascending : (trials.map (·.trialNumber)).Pairwise (· < ·)
  bounded : ∀ n ∈ maxTrials, ∀ number ∈ trials.map (·.trialNumber), number < n

instance (maxTrials : Option ℕ) (trials : List (TrialRecord F)) : Decidable (WithinBudget maxTrials trials) :=
  decidable_of_iff (trials.isEmpty = false ∧ (trials.map (·.trialNumber)).Pairwise (· < ·) ∧
    ∀ n ∈ maxTrials, ∀ number ∈ trials.map (·.trialNumber), number < n)
    ⟨fun h => ⟨by simpa using h.1, h.2.1, h.2.2⟩, fun h => ⟨by simpa using h.nonempty, h.ascending, h.bounded⟩⟩

def Snapshot.withinBudget (maxTrials : Option ℕ) : Snapshot F → Bool
  | .plan _ _ => true
  | .train _ trials => decide (WithinBudget maxTrials trials)

/-- A callback that takes nothing but trials within the budget. -/
def insisting (maxTrials : Option ℕ) (call : StageCallback F) : StageCallback F := fun log snapshot =>
  if snapshot.withinBudget maxTrials then call log snapshot else .error (.exception "AssertionError")

theorem notify_insisting {maxTrials : Option ℕ} {call : StageCallback F} {snapshot : Snapshot F}
    (h : snapshot.withinBudget maxTrials = true) :
    notify (some (insisting maxTrials call)) snapshot = notify (some call) snapshot := by
  funext s
  have hcall : insisting maxTrials call s.log snapshot = call s.log snapshot := if_pos h
  cases hc : call s.log snapshot with
  | error e => rw [notify_some_error hc, notify_some_error (hcall.trans hc)]
  | ok _ => rw [notify_some_ok hc, notify_some_ok (hcall.trans hc)]

/-- Numbers that follow one another from zero on. -/
theorem withinBudget_of_range {maxTrials : Option ℕ} {trials : List (TrialRecord F)} {k : ℕ} (hne : trials ≠ [])
    (h : trials.map (·.trialNumber) = List.range k) (hk : ∀ n ∈ maxTrials, k ≤ n) : WithinBudget maxTrials trials := by
  refine ⟨hne, ?_, fun n hn number hnumber => ?_⟩
  · rw [h]
    exact List.pairwise_lt_range
  · rw [h, List.mem_range] at hnumber
    exact hnumber.trans_le (hk n hn)

/-! ### The built-in search -/

/-- The candidates that a budget leaves. -/
def builtInCandidates (taskType : TaskType) (maxTrials : Option ℕ) : List CandidateSpec :=
  match maxTrials with
  | some n => (modelSpecs taskType).2.take n
  | none => (modelSpecs taskType).2

theorem length_builtInCandidates (taskType : TaskType) (maxTrials : Option ℕ) :
    ∀ n ∈ maxTrials, (builtInCandidates taskType maxTrials).length ≤ n := by
  rintro n hn
  cases hn
  exact List.length_take_le n _

theorem best_ne_none {better : F → F → Bool} {items : List (CandidateSpec × List (String × Metric F) × F)}
    {chosen : CandidateSpec × List (String × Metric F) × F} (h : best better items = some chosen) : items ≠ [] := by
  rintro rfl
  cases h

theorem selectCandidate_withinBudget {lib : Learning F M} {d : Development F} {baselineSpec : CandidateSpec}
    {candidates : List CandidateSpec} {maxTrials : Option ℕ} (hn : ∀ n ∈ maxTrials, candidates.length ≤ n)
    {selection : Selection F M} (h : selectCandidate lib d baselineSpec candidates = .ok selection) :
    WithinBudget maxTrials selection.trials := by
  obtain ⟨htrials, hbest, -⟩ := selectCandidate_ok h
  have hnumbers := runTrials_numbers htrials
  rw [← List.range_eq_range'] at hnumbers
  refine withinBudget_of_range ?_ hnumbers hn
  intro he
  exact best_ne_none hbest (by rw [he]; rfl)

theorem execute_insisting {lib : Learning F M} {prepared : PreparedTabularData F} {baselineSpec : CandidateSpec}
    {candidates : List CandidateSpec} {maxTrials : Option ℕ} (hn : ∀ n ∈ maxTrials, candidates.length ≤ n)
    (call : StageCallback F) :
    execute lib prepared baselineSpec candidates (some (insisting maxTrials call)) =
      execute lib prepared baselineSpec candidates (some call) := by
  unfold execute
  cases hs : selectCandidate lib prepared.development baselineSpec candidates with
  | error e => rfl
  | ok selection =>
    funext s
    rw [Act.check_ok_bind, Act.check_ok_bind]
    have hw := selectCandidate_withinBudget hn hs
    have hwithin : (Snapshot.train selection.baseline selection.trials).withinBudget maxTrials = true :=
      decide_eq_true hw
    rw [notify_insisting hwithin]

theorem execute_withinBudget {lib : Learning F M} {prepared : PreparedTabularData F} {baselineSpec : CandidateSpec}
    {candidates : List CandidateSpec} {maxTrials : Option ℕ} (hn : ∀ n ∈ maxTrials, candidates.length ≤ n)
    {callback : Option (StageCallback F)} {s t : Session F} {result : TabularAutoMLResult F}
    (h : execute lib prepared baselineSpec candidates callback s = (.ok result, t)) :
    WithinBudget maxTrials result.trials := by
  obtain ⟨selection, hs, hd⟩ := execute_ok h
  rw [hd.trials]
  exact selectCandidate_withinBudget hn hs

/-! ### Native backends -/

/-- A native candidate whose trials, if it brings its own, are within the budget. -/
def NativeWithin (maxTrials : Option ℕ) (native : NativeCandidate F M) : Prop :=
  ∀ trials ∈ native.nativeTrials, WithinBudget maxTrials trials

theorem nativeTrials_withinBudget {lib : Learning F M} {prepared : PreparedTabularData F}
    {native : NativeCandidate F M} {maxTrials : Option ℕ} (hpos : maxTrials ≠ some 0) (h : NativeWithin maxTrials native)
    (score : F) : WithinBudget maxTrials (nativeTrials lib prepared native score) := by
  have hone : ∀ trial : TrialRecord F, trial.trialNumber = 0 → WithinBudget maxTrials [trial] := fun trial ht => by
    refine withinBudget_of_range (k := 1) (by simp) (by simp [ht, List.range_succ]) fun n hn => ?_
    rcases Nat.eq_zero_or_pos n with rfl | hn0
    · exact absurd hn hpos
    · exact hn0
  unfold nativeTrials
  split
  · rename_i trial trials ht
    exact h _ ht
  · exact hone _ rfl

theorem assembleNativeResult_insisting {lib : Learning F M} {prepared : PreparedTabularData F}
    {native : NativeCandidate F M} {maxTrials : Option ℕ} (hpos : maxTrials ≠ some 0) (h : NativeWithin maxTrials native)
    (call : StageCallback F) :
    assembleNativeResult lib prepared native (some (insisting maxTrials call)) =
      assembleNativeResult lib prepared native (some call) := by
  have hnotify : ∀ (baseline : BaselineRecord F) (score : F),
      notify (some (insisting maxTrials call)) (.train baseline (nativeTrials lib prepared native score)) =
        notify (some call) (.train baseline (nativeTrials lib prepared native score)) := fun baseline score =>
    notify_insisting (decide_eq_true (nativeTrials_withinBudget hpos h score))
  unfold assembleNativeResult
  simp only [hnotify]

theorem assembleNativeResult_withinBudget {lib : Learning F M} {prepared : PreparedTabularData F}
    {native : NativeCandidate F M} {maxTrials : Option ℕ} (hpos : maxTrials ≠ some 0) (h : NativeWithin maxTrials native)
    {callback : Option (StageCallback F)} {s t : Session F} {result : TabularAutoMLResult F}
    (hr : assembleNativeResult lib prepared native callback s = (.ok result, t)) :
    WithinBudget maxTrials result.trials := by
  unfold assembleNativeResult at hr
  obtain ⟨primary, -, hr⟩ := Act.check_bind_ok hr
  obtain ⟨fitted, -, hr⟩ := Act.check_bind_ok hr
  obtain ⟨opened, s₁, -, hr⟩ := Act.bind_eq_ok hr
  obtain ⟨baselineMetrics, -, hr⟩ := Act.check_bind_ok hr
  obtain ⟨candidateMetrics, -, hr⟩ := Act.check_bind_ok hr
  obtain ⟨visualizations, -, hr⟩ := Act.check_bind_ok hr
  rw [Act.get_bind] at hr
  obtain ⟨evaluation, -, hr⟩ := Act.check_bind_ok hr
  obtain ⟨_, s₂, -, hr⟩ := Act.bind_eq_ok hr
  cases hr
  exact nativeTrials_withinBudget hpos h primary.mean

/-- What is picked keeps its order. -/
theorem map_filterMap_sublist {α β γ : Type} {f : α → Option β} {g : β → γ} {g' : α → γ}
    (h : ∀ a b, f a = some b → g b = g' a) (items : List α) :
    List.Sublist ((items.filterMap f).map g) (items.map g') := by
  induction items with
  | nil => exact List.Sublist.refl []
  | cons a items ih =>
    cases hf : f a with
    | none =>
      rw [List.filterMap_cons_none hf, List.map_cons]
      exact ih.cons (g' a)
    | some b =>
      rw [List.filterMap_cons_some hf, List.map_cons, List.map_cons, h a b hf]
      exact ih.cons_cons (g' a)

theorem length_portfolio (maxTrials : Option ℕ) (hpos : maxTrials ≠ some 0) :
    ∀ n ∈ maxTrials, (portfolio maxTrials).length ≤ n := by
  rintro n hn
  cases hn
  cases n with
  | zero => exact absurd rfl hpos
  | succ n =>
    rw [portfolio, List.length_take]
    exact (min_le_left _ _).trans (min_le_right _ _)

theorem rowTrial_number (autogluon : AutoGluon F M) (lib : Learning F M) (metric : String) (seed : ℕ)
    (row : LeaderboardRow F × ℕ) (trial : TrialRecord F) (h : autogluon.rowTrial lib metric seed row = some trial) :
    trial.trialNumber = row.2 := by
  simp only [AutoGluon.rowTrial] at h
  split_ifs at h
  cases h
  rfl

/-- The rows of the leaderboard that have finite scores. -/
theorem rowTrials_withinBudget (autogluon : AutoGluon F M) (lib : Learning F M) (metric : String) (seed : ℕ)
    {rows : List (LeaderboardRow F)} {maxTrials : Option ℕ} (hn : ∀ n ∈ maxTrials, rows.length ≤ n)
    (hne : rows.zipIdx.filterMap (autogluon.rowTrial lib metric seed) ≠ []) :
    WithinBudget maxTrials (rows.zipIdx.filterMap (autogluon.rowTrial lib metric seed)) := by
  have hsub := map_filterMap_sublist (g := fun trial : TrialRecord F => trial.trialNumber)
    (rowTrial_number autogluon lib metric seed) rows.zipIdx
  rw [List.zipIdx_map_snd, ← List.range_eq_range'] at hsub
  refine ⟨hne, List.pairwise_lt_range.sublist hsub, fun n hmem number hnumber => ?_⟩
  exact (List.mem_range.mp (hsub.subset hnumber)).trans_le (hn n hmem)

theorem AutoGluon.train_within {autogluon : AutoGluon F M} {lib : Learning F M} {prepared : PreparedTabularData F}
    {families : List String} {timeLimit : ℤ} {maxTrials : Option ℕ} (hn : ∀ n ∈ maxTrials, families.length ≤ n)
    {native : NativeCandidate F M} (h : autogluon.train lib prepared families timeLimit = .ok native) :
    NativeWithin maxTrials native := by
  simp only [AutoGluon.train, bind, Except.bind] at h
  cases hfit : autogluon.fit prepared families (max 1 (timeLimit / 2)) with
  | error e => rw [hfit] at h; cases h
  | ok predictor =>
    simp only [hfit] at h
    by_cases hboard : (predictor.leaderboard.isEmpty || !predictor.scored) = true
    · rw [if_pos hboard] at h
      cases h
    · rw [if_neg hboard] at h
      cases hs : predictor.leaderboard.find? (·.model == predictor.modelBest) with
      | none => rw [hs] at h; cases h
      | some selected =>
        simp only [hs] at h
        split_ifs at h with htrials
        cases hd : predictor.deployed with
        | error e => rw [hd] at h; cases h
        | ok deployed =>
          rw [hd] at h
          cases h
          rintro trials ht
          cases ht
          exact rowTrials_withinBudget autogluon lib _ _
            (fun n hmem => (List.length_take_le _ _).trans (hn n hmem)) (by simpa using htrials)

theorem TabPFN.train_within {tabpfn : TabPFN F M} {lib : Learning F M} {prepared : PreparedTabularData F}
    {maxTrials : Option ℕ} {native : NativeCandidate F M} (h : tabpfn.train lib prepared = .ok native) :
    NativeWithin maxTrials native := by
  simp only [TabPFN.train, bind, Except.bind] at h
  split at h
  · cases h
  · split at h
    · cases h
    · split at h
      · cases h
      · split at h
        · cases h
        · cases h
          rintro trials ht
          cases ht

/-- What a backend does after its PLAN stage, under a callback and under the one that
insists. -/
theorem native_insisting {lib : Learning F M} {prepared : PreparedTabularData F} {maxTrials : Option ℕ}
    (hpos : maxTrials ≠ some 0) {trained : Except Raised (NativeCandidate F M)}
    (h : ∀ native, trained = .ok native → NativeWithin maxTrials native) (call : StageCallback F) :
    (do
      let native ← check trained
      assembleNativeResult lib prepared native (some (insisting maxTrials call))) =
    (do
      let native ← check trained
      assembleNativeResult lib prepared native (some call)) := by
  funext s
  cases trained with
  | error e => rfl
  | ok native =>
    rw [Act.check_ok_bind, Act.check_ok_bind, assembleNativeResult_insisting hpos (h native rfl)]

theorem rescue_ok {α : Type} {m : Act (Session F) Raised α} {s t : Session F} {a : α} (h : rescue m s = (.ok a, t)) :
    m s = (.ok a, t) := by
  rw [rescue] at h
  split at h
  · rename_i hm
    cases h
    exact hm
  · cases h

theorem native_withinBudget {lib : Learning F M} {prepared : PreparedTabularData F} {maxTrials : Option ℕ}
    (hpos : maxTrials ≠ some 0) {trained : Except Raised (NativeCandidate F M)}
    (h : ∀ native, trained = .ok native → NativeWithin maxTrials native) {callback : Option (StageCallback F)}
    {s t : Session F} {result : TabularAutoMLResult F}
    (hr : rescue (do
      let native ← check trained
      assembleNativeResult lib prepared native callback) s = (.ok result, t)) :
    WithinBudget maxTrials result.trials := by
  obtain ⟨native, hn, hr⟩ := Act.check_bind_ok (rescue_ok hr)
  exact assembleNativeResult_withinBudget hpos (h native hn) hr

/-! ### All backends -/

/-- A callback that insists on the budget is never what stops a backend, and what a backend
delivers is within the budget. -/
theorem trials_within_budget (lib : Learning F M) (backend : Configured F M) (prepared : PreparedTabularData F)
    (maxTrials : Option ℕ) (hpos : maxTrials ≠ some 0) (maxWallTimeSeconds : Option ℤ) :
    (∀ call : StageCallback F,
      backend.run lib prepared maxTrials maxWallTimeSeconds (some (insisting maxTrials call)) =
        backend.run lib prepared maxTrials maxWallTimeSeconds (some call)) ∧
    ∀ callback s result t, backend.run lib prepared maxTrials maxWallTimeSeconds callback s = (.ok result, t) →
      WithinBudget maxTrials result.trials := by
  have hplan : ∀ call : StageCallback F,
      notify (some (insisting maxTrials call)) (.plan prepared.task prepared.split) =
        notify (some call) (.plan prepared.task prepared.split) := fun call => notify_insisting rfl
  have hcandidates := length_builtInCandidates prepared.taskType maxTrials
  have hautogluon : ∀ (a : AutoGluon F M) timeLimit native,
      a.train lib prepared (portfolio maxTrials) timeLimit = .ok native → NativeWithin maxTrials native :=
    fun _ _ _ h => AutoGluon.train_within (length_portfolio maxTrials hpos) h
  constructor
  · intro call
    cases backend with
    | sklearn =>
      show (Backend.sklearn _ (builtInCandidates prepared.taskType maxTrials)).run lib prepared _ =
        (Backend.sklearn _ (builtInCandidates prepared.taskType maxTrials)).run lib prepared _
      simp only [Backend.run, hplan, execute_insisting hcandidates]
    | autogluon a =>
      simp only [Configured.run, AutoGluon.run, hplan, native_insisting hpos (hautogluon a _)]
    | tabpfn p =>
      simp only [Configured.run, TabPFN.run, hplan, native_insisting hpos (fun _ h => TabPFN.train_within h)]
  · intro callback s result t h
    cases backend with
    | sklearn =>
      obtain ⟨_, s₁, -, h⟩ := Act.bind_eq_ok h
      exact execute_withinBudget hcandidates h
    | autogluon a =>
      obtain ⟨_, s₁, -, h⟩ := Act.bind_eq_ok h
      obtain ⟨timeLimit, -, h⟩ := Act.check_bind_ok h
      exact native_withinBudget hpos (hautogluon a timeLimit) h
    | tabpfn p =>
      obtain ⟨_, s₁, -, h⟩ := Act.bind_eq_ok h
      obtain ⟨_, -, h⟩ := Act.check_bind_ok h
      obtain ⟨_, -, h⟩ := Act.check_bind_ok h
      exact native_withinBudget hpos (fun _ h => TabPFN.train_within h) h

/-- A fit that leaves three models. -/
def sampleAutoGluon : AutoGluon ℚ Unit where
  fit _ _ _ := .ok {
    leaderboard := [⟨"RandomForest", -1⟩, ⟨"ExtraTrees", -2⟩, ⟨"LinearModel", -3⟩], scored := true,
    modelBest := "RandomForest", deployed := .ok ((), "") }
  upper := String.toUpper
  zero := 0

/-- With a budget of two trials, two of the three are published. -/
theorem two_trials_published : ∃ prepared result t,
    prepareFrame splitters sampleHashes sampleTable samplePreparation = .ok prepared ∧
      (Configured.autogluon sampleAutoGluon).run sampleLearning prepared (some 2) (some 60) none
        (Session.start prepared) = (.ok result, t) ∧
      result.trials.length = 2 ∧ WithinBudget (some 2) result.trials := by
  have hcount : ((prepareFrame splitters sampleHashes sampleTable samplePreparation).toOption.bind fun prepared =>
      ((Configured.autogluon sampleAutoGluon).run sampleLearning prepared (some 2) (some 60) none
        (Session.start prepared)).1.toOption.map (·.trials.length)) = some 2 := by decide +kernel
  obtain ⟨prepared, hp, hrun⟩ := Option.bind_eq_some_iff.mp hcount
  obtain ⟨result, hr, htwo⟩ := Option.map_eq_some_iff.mp hrun
  cases hout : (Configured.autogluon sampleAutoGluon).run sampleLearning prepared (some 2) (some 60) none
      (Session.start prepared) with
  | mk r t =>
    rw [hout] at hr
    cases r with
    | error e => cases hr
    | ok delivered =>
      obtain rfl : delivered = result := Option.some.inj hr
      exact ⟨prepared, delivered, t, except_toOption_eq_some hp, hout, htwo,
        (trials_within_budget sampleLearning (.autogluon sampleAutoGluon) prepared (some 2) (by decide) (some 60)).2
          none _ delivered t hout⟩

end AutomlApi.Engine
