import AutomlApi.Engine.Sealing
import AutomlApi.Library.Leaders

/-! Which candidate the built-in search delivers: the first of the best of its trials,
fitted on all of the development rows. -/

namespace AutomlApi.Engine

open Leaders

variable {F M V : Type}

/-! ### The trials -/

/-- What is recorded of one candidate. -/
structure TrialOf (lib : Learning F M) (d : Development F) (numbered : CandidateSpec × ℕ) (trial : TrialRecord F) :
    Prop where
  spec : trial.spec = numbered.1
  trialNumber : trial.trialNumber = numbered.2
  configHash : trial.configHash = lib.stableHash "sklearn" numbered.1 d.seed
  succeeded : trial.succeeded = (evaluateCandidate lib d numbered.1).toOption

/-- Every candidate has its trial, in the order of the candidates. -/
theorem runTrials_trialOf {lib : Learning F M} {d : Development F} {start : ℕ} {specs : List CandidateSpec}
    {trials : List (TrialRecord F)} (h : runTrials lib d start specs = .ok trials) :
    List.Forall₂ (TrialOf lib d) (specs.zipIdx start) trials := by
  induction specs generalizing start trials with
  | nil =>
    cases h
    exact .nil
  | cons spec rest ih =>
    rw [List.zipIdx_cons]
    rw [runTrials] at h
    cases he : evaluateCandidate lib d spec with
    | ok succeeded =>
      rw [he] at h
      cases hr : runTrials lib d (start + 1) rest with
      | error e => rw [hr] at h; cases h
      | ok more =>
        rw [hr] at h
        cases h
        exact .cons ⟨rfl, rfl, rfl, by rw [he]; rfl⟩ (ih hr)
    | error e =>
      rw [he] at h
      cases e with
      | interrupt => cases h
      | exception type =>
        cases hr : runTrials lib d (start + 1) rest with
        | error e => rw [hr] at h; cases h
        | ok more =>
          rw [hr] at h
          cases h
          exact .cons ⟨rfl, rfl, rfl, by rw [he]; rfl⟩ (ih hr)

theorem specs_of_trialOf {lib : Learning F M} {d : Development F} {numbered : List (CandidateSpec × ℕ)}
    {trials : List (TrialRecord F)} (h : List.Forall₂ (TrialOf lib d) numbered trials) :
    trials.map (·.spec) = numbered.map (·.1) := by
  induction h with
  | nil => rfl
  | cons hx _ ih => rw [List.map_cons, List.map_cons, hx.spec, ih]

theorem numbers_of_trialOf {lib : Learning F M} {d : Development F} {numbered : List (CandidateSpec × ℕ)}
    {trials : List (TrialRecord F)} (h : List.Forall₂ (TrialOf lib d) numbered trials) :
    trials.map (·.trialNumber) = numbered.map (·.2) := by
  induction h with
  | nil => rfl
  | cons hx _ ih => rw [List.map_cons, List.map_cons, hx.trialNumber, ih]

theorem runTrials_specs {lib : Learning F M} {d : Development F} {start : ℕ} {specs : List CandidateSpec}
    {trials : List (TrialRecord F)} (h : runTrials lib d start specs = .ok trials) :
    trials.map (·.spec) = specs := by
  rw [specs_of_trialOf (runTrials_trialOf h)]
  exact List.zipIdx_map_fst start specs

theorem runTrials_numbers {lib : Learning F M} {d : Development F} {start : ℕ} {specs : List CandidateSpec}
    {trials : List (TrialRecord F)} (h : runTrials lib d start specs = .ok trials) :
    trials.map (·.trialNumber) = List.range' start specs.length := by
  rw [numbers_of_trialOf (runTrials_trialOf h)]
  exact List.zipIdx_map_snd start specs

/-- A trial has succeeded with what the evaluation of its candidate gives. -/
theorem runTrials_mem {lib : Learning F M} {d : Development F} {start : ℕ} {specs : List CandidateSpec}
    {trials : List (TrialRecord F)} (h : runTrials lib d start specs = .ok trials) {trial : TrialRecord F}
    (ht : trial ∈ trials) :
    trial.configHash = lib.stableHash "sklearn" trial.spec d.seed ∧
      trial.succeeded = (evaluateCandidate lib d trial.spec).toOption := by
  have hall := runTrials_trialOf h
  generalize specs.zipIdx start = numbered at hall
  clear h
  induction hall with
  | nil => cases ht
  | cons hx _ ih =>
    rcases List.mem_cons.mp ht with rfl | ht
    · exact ⟨by rw [hx.spec, hx.configHash], by rw [hx.spec, hx.succeeded]⟩
    · exact ih ht

/-! ### Scores -/

/-- Scores compare by their values. Of doubles this holds of all but NaN, which the mean
over some finite scores is not; and a cross-validation has a score on every fold. -/
structure Comparable [LT V] (lib : Learning F M) (value : F → V) (number : F → Prop) : Prop where
  less : ∀ a b, number a → number b → (lib.less a b = true ↔ value a < value b)
  mean : ∀ values, values ≠ [] → values.all lib.isFinite = true → number (lib.mean values)
  folds : ∀ spec d scores, lib.crossValidate spec d = .ok scores → ∀ score ∈ scores, score.2 ≠ []

/-- The better of two scores under a metric. -/
def Surpasses [LT V] (value : F → V) (metric : String) (a b : F) : Prop :=
  if metricIsMaximized metric then value b < value a else value a < value b

theorem scoreOf_number [LT V] {lib : Learning F M} {value : F → V} {number : F → Prop} (hc : Comparable lib value number)
    {taskType : TaskType} {name : String} {values : List F} (hv : values ≠ []) {p : String × Metric F}
    (h : scoreOf lib taskType name values = .ok p) : number p.2.mean := by
  simp only [scoreOf] at h
  split_ifs at h with hn hf hf
  · cases h
    exact hc.mean _ (by simpa using hv) hf
  · cases h
    exact hc.mean _ hv hf

theorem mapM_except_mem {α β ε : Type} {f : α → Except ε β} {xs : List α} {ys : List β} (h : xs.mapM f = .ok ys)
    {y : β} (hy : y ∈ ys) : ∃ x ∈ xs, f x = .ok y := by
  induction xs generalizing ys with
  | nil =>
    cases h
    cases hy
  | cons x xs ih =>
    rw [List.mapM_cons] at h
    cases hx : f x with
    | error e => rw [hx] at h; cases h
    | ok z =>
      rw [hx] at h
      cases hr : xs.mapM f with
      | error e => rw [hr] at h; cases h
      | ok zs =>
        rw [hr] at h
        cases h
        rcases List.mem_cons.mp hy with rfl | hy
        · exact ⟨x, List.mem_cons_self, hx⟩
        · obtain ⟨w, hw, hf⟩ := ih hr hy
          exact ⟨w, List.mem_cons_of_mem x hw, hf⟩

theorem crossValidatedMetrics_number [LT V] {lib : Learning F M} {value : F → V} {number : F → Prop}
    (hc : Comparable lib value number) {spec : CandidateSpec} {d : Development F} {metrics : List (String × Metric F)}
    (h : crossValidatedMetrics lib spec d = .ok metrics) {p : String × Metric F} (hp : p ∈ metrics) :
    number p.2.mean := by
  simp only [crossValidatedMetrics] at h
  cases hs : lib.crossValidate spec d with
  | error e => rw [hs] at h; cases h
  | ok scores =>
    rw [hs] at h
    obtain ⟨name, -, hname⟩ := mapM_except_mem h hp
    cases hl : scores.lookup name with
    | none => rw [hl] at hname; cases hname
    | some values =>
      rw [hl] at hname
      obtain ⟨_, _, rfl, -⟩ := List.lookup_eq_some_iff.mp hl
      exact scoreOf_number hc (hc.folds spec d _ hs (name, values) (by simp)) hname

/-- The score of a candidate is the mean of its primary metric. -/
theorem evaluateCandidate_ok {lib : Learning F M} {d : Development F} {spec : CandidateSpec}
    {metrics : List (String × Metric F)} {score : F} (h : evaluateCandidate lib d spec = .ok (metrics, score)) :
    crossValidatedMetrics lib spec d = .ok metrics ∧
      ∃ metric, metrics.lookup d.primaryMetric = some metric ∧ metric.mean = score := by
  simp only [evaluateCandidate] at h
  cases hm : crossValidatedMetrics lib spec d with
  | error e => rw [hm] at h; cases h
  | ok metrics' =>
    rw [hm] at h
    simp only [bind, Except.bind] at h
    cases hl : metrics'.lookup d.primaryMetric with
    | none => rw [hl] at h; cases h
    | some metric =>
      rw [hl] at h
      cases h
      exact ⟨rfl, metric, hl, rfl⟩

/-! ### The choice -/

/-- The candidates that did not fail, by their trials. -/
def successes (trials : List (TrialRecord F)) : List (CandidateSpec × List (String × Metric F) × F) :=
  trials.filterMap fun trial => trial.succeeded.map fun s => (trial.spec, s)

/-- A trial with its place among the others: its score surpasses those before it, and none
after it surpasses its own. -/
structure Foremost [LT V] (value : F → V) (metric : String) (before : List (TrialRecord F)) (score : F)
    (after : List (TrialRecord F)) : Prop where
  beats : ∀ other ∈ before, ∀ metrics s, other.succeeded = some (metrics, s) → Surpasses value metric score s
  unbeaten : ∀ other ∈ after, ∀ metrics s, other.succeeded = some (metrics, s) → ¬ Surpasses value metric s score

theorem successes_mem {trials : List (TrialRecord F)} {trial : TrialRecord F} (ht : trial ∈ trials)
    {metrics : List (String × Metric F)} {s : F} (h : trial.succeeded = some (metrics, s)) :
    (trial.spec, metrics, s) ∈ successes trials :=
  List.mem_filterMap.mpr ⟨trial, ht, by rw [h]; rfl⟩

/-- The choice among the successes, whichever way the metric points. -/
theorem best_foremost [LinearOrder V] {lib : Learning F M} {value : F → V} {number : F → Prop}
    (hc : Comparable lib value number) {metric : String} {trials : List (TrialRecord F)}
    (hn : ∀ p ∈ successes trials, number p.2.2) {chosen : CandidateSpec × List (String × Metric F) × F}
    (h : best (fun a b => if metricIsMaximized metric then lib.less b a else lib.less a b) (successes trials) =
      some chosen) :
    ∃ before trial after, trials = before ++ trial :: after ∧ trial.spec = chosen.1 ∧
      trial.succeeded = some chosen.2 ∧ Foremost value metric before chosen.2.2 after := by
  have hsplit : ∀ {W : Type} [LinearOrder W] (rank : F → W),
      (∀ a b, number a → number b →
        ((if metricIsMaximized metric then lib.less b a else lib.less a b) = true ↔ rank b < rank a)) →
      ∃ before trial after, trials = before ++ trial :: after ∧ trial.spec = chosen.1 ∧
        trial.succeeded = some chosen.2 ∧
        First (fun p => rank p.2.2) (successes before) chosen (successes after) := by
    intro W _ rank hrank
    cases hs : successes trials with
    | nil => rw [hs] at h; cases h
    | cons first rest =>
      rw [hs] at h hn
      have hranked : RankedBy _ (fun p => rank p.2.2) (first :: rest) := fun a ha b hb =>
        hrank a.2.2 b.2.2 (hn a ha) (hn b hb)
      obtain ⟨earlier, later, he, hfirst⟩ := leader_first first rest hranked
      rw [← Option.some.inj h]
      obtain ⟨before, trial, after, htrials, ht, hb, ha⟩ := filterMap_split (hs.trans he)
      obtain ⟨s, hsucceeded, hpair⟩ := Option.map_eq_some_iff.mp ht
      refine ⟨before, trial, after, htrials, congrArg (·.1) hpair, ?_, ?_⟩
      · rw [hsucceeded]
        exact congrArg (fun p => some p.2) hpair
      · rw [show successes before = earlier from hb, show successes after = later from ha]
        exact hfirst
  cases hm : metricIsMaximized metric with
  | true =>
    obtain ⟨before, trial, after, htrials, hspec, hs, hfirst⟩ := hsplit value fun a b ha hb => by
      rw [hm]
      exact hc.less b a hb ha
    refine ⟨before, trial, after, htrials, hspec, hs, fun other ho metrics s hos => ?_, fun other ho metrics s hos => ?_⟩
    · rw [Surpasses, if_pos hm]
      exact hfirst.beats _ (successes_mem ho hos)
    · rw [Surpasses, if_pos hm]
      exact not_lt.mpr (hfirst.unbeaten _ (successes_mem ho hos))
  | false =>
    -- the other way round: the order of the values turned over
    obtain ⟨before, trial, after, htrials, hspec, hs, hfirst⟩ := hsplit (fun a => OrderDual.toDual (value a))
      fun a b ha hb => by
        rw [hm]
        exact hc.less a b ha hb
    have hf : ¬ metricIsMaximized metric = true := by simp [hm]
    refine ⟨before, trial, after, htrials, hspec, hs, fun other ho metrics s hos => ?_, fun other ho metrics s hos => ?_⟩
    · rw [Surpasses, if_neg hf]
      exact hfirst.beats _ (successes_mem ho hos)
    · rw [Surpasses, if_neg hf]
      exact not_lt.mpr (hfirst.unbeaten _ (successes_mem ho hos))

/-! ### The delivery -/

/-- What a selection is made of. -/
theorem selectCandidate_ok {lib : Learning F M} {d : Development F} {baselineSpec : CandidateSpec}
    {candidates : List CandidateSpec} {selection : Selection F M}
    (h : selectCandidate lib d baselineSpec candidates = .ok selection) :
    runTrials lib d 0 candidates = .ok selection.trials ∧
      best (fun a b => if metricIsMaximized d.primaryMetric then lib.less b a else lib.less a b)
        (successes selection.trials) = some (selection.selected, selection.cvMetrics, selection.score) ∧
      lib.fit selection.selected d = .ok selection.fittedCandidate := by
  simp only [selectCandidate, bind, Except.bind] at h
  cases hb : orModelTraining (crossValidatedMetrics lib baselineSpec d) with
  | error e => rw [hb] at h; cases h
  | ok baselineMetrics =>
    rw [hb] at h
    cases ht : runTrials lib d 0 candidates with
    | error e => rw [ht] at h; cases h
    | ok trials =>
      rw [ht] at h
      simp only at h
      split at h
      · cases h
      · rename_i selected cvMetrics score hbest
        cases hfb : lib.fit baselineSpec d with
        | error e => rw [hfb] at h; cases h
        | ok fittedBaseline =>
          rw [hfb] at h
          cases hfc : lib.fit selected d with
          | error e => rw [hfc] at h; cases h
          | ok fittedCandidate =>
            rw [hfc] at h
            cases h
            exact ⟨rfl, hbest, hfc⟩

theorem notify_holdout {callback : Option (StageCallback F)} {snapshot : Snapshot F} {s t : Session F}
    (h : notify callback snapshot s = (.ok (), t)) : t.holdout = s.holdout := by
  cases callback with
  | none => cases h; rfl
  | some call =>
    cases hcall : call s.log snapshot with
    | error e => rw [notify_some_error hcall] at h; cases h
    | ok _ =>
      rw [notify_some_ok hcall] at h
      cases h
      rfl

theorem openOnce_ok {s t : Session F} {opened : FeatureFrame F × List (Cell F)} (h : openOnce s = (.ok opened, t)) :
    opened = (s.holdout.features, s.holdout.target) := by
  cases ho : s.holdout.opened with
  | true => rw [openOnce_opened ho] at h; cases h
  | false =>
    rw [openOnce_sealed ho] at h
    cases h
    rfl

theorem holdoutEvaluation_ok {lib : Learning F M} {model : M} {features : FeatureFrame F} {target : List (Cell F)}
    {taskType : TaskType} {metrics : List (String × F)}
    (h : holdoutEvaluation lib model features target taskType = .ok metrics) :
    lib.predict model features target taskType = .ok metrics ∧ metrics.all (lib.isFinite ·.2) = true := by
  simp only [holdoutEvaluation, bind, Except.bind] at h
  cases hp : lib.predict model features target taskType with
  | error e => rw [hp] at h; cases h
  | ok m =>
    rw [hp] at h
    simp only at h
    split_ifs at h with hf
    cases h
    exact ⟨rfl, hf⟩

/-- What a report says of two candidates. -/
theorem evaluationRecord_ok {lib : Learning F M} {primaryMetric selectedFamily : String} {selectedCvScore : F}
    {baselineMetrics candidateMetrics : List (String × F)} {visualizations : List String} {openCount : ℕ}
    {evaluation : EvaluationRecord F}
    (h : evaluationRecord lib primaryMetric selectedFamily selectedCvScore baselineMetrics candidateMetrics
      visualizations openCount = .ok evaluation) :
    ∃ baseline candidate, baselineMetrics.lookup primaryMetric = some baseline ∧
      candidateMetrics.lookup primaryMetric = some candidate ∧
      evaluation = {
        primaryMetric := primaryMetric, baseline := baseline, candidate := candidate,
        pairedImprovement :=
          if metricIsMaximized primaryMetric then lib.sub candidate baseline else lib.sub baseline candidate,
        baselineMetrics := baselineMetrics, candidateMetrics := candidateMetrics, selectedFamily := selectedFamily,
        selectedCvScore := selectedCvScore, holdoutEvaluations := openCount, visualizations := visualizations } := by
  simp only [evaluationRecord, primaryOf, bind, Except.bind] at h
  cases hb : baselineMetrics.lookup primaryMetric with
  | none => rw [hb] at h; cases h
  | some baseline =>
    rw [hb] at h
    cases hc : candidateMetrics.lookup primaryMetric with
    | none => rw [hc] at h; cases h
    | some candidate =>
      rw [hc] at h
      cases h
      exact ⟨baseline, candidate, rfl, rfl, rfl⟩

/-- A result tells what its selection was, and delivers the fitted candidate. -/
structure Delivered (lib : Learning F M) (prepared : PreparedTabularData F) (holdout : SealedHoldout F)
    (selection : Selection F M) (result : TabularAutoMLResult F) : Prop where
  trials : result.trials = selection.trials
  spec : result.modelMetadata.spec = selection.selected
  configHash : result.modelMetadata.configHash = lib.stableHash "sklearn" selection.selected prepared.seed
  cvMetrics : result.modelMetadata.cvMetrics = selection.cvMetrics
  family : result.evaluation.selectedFamily = selection.selected.family
  score : result.evaluation.selectedCvScore = selection.score
  predicts : lib.predict selection.fittedCandidate holdout.features holdout.target prepared.taskType =
    .ok result.evaluation.candidateMetrics
  dumped : lib.dump selection.fittedCandidate = .ok result.modelBytes

theorem execute_ok {lib : Learning F M} {prepared : PreparedTabularData F} {baselineSpec : CandidateSpec}
    {candidates : List CandidateSpec} {callback : Option (StageCallback F)} {s t : Session F}
    {result : TabularAutoMLResult F} (h : execute lib prepared baselineSpec candidates callback s = (.ok result, t)) :
    ∃ selection, selectCandidate lib prepared.development baselineSpec candidates = .ok selection ∧
      Delivered lib prepared s.holdout selection result := by
  unfold execute at h
  obtain ⟨selection, hselection, h⟩ := Act.check_bind_ok h
  obtain ⟨_, s₁, hnotify, h⟩ := Act.bind_eq_ok h
  obtain ⟨opened, s₂, hopen, h⟩ := Act.bind_eq_ok h
  obtain ⟨baselineMetrics, -, h⟩ := Act.check_bind_ok h
  obtain ⟨candidateMetrics, hcandidate, h⟩ := Act.check_bind_ok h
  obtain ⟨visualizations, -, h⟩ := Act.check_bind_ok h
  rw [Act.get_bind] at h
  obtain ⟨evaluation, hevaluation, h⟩ := Act.check_bind_ok h
  obtain ⟨modelBytes, hdump, h⟩ := Act.check_bind_ok h
  cases h
  refine ⟨selection, hselection, ?_⟩
  rw [openOnce_ok hopen, notify_holdout hnotify] at hcandidate
  obtain ⟨_, _, -, -, rfl⟩ := evaluationRecord_ok hevaluation
  exact ⟨rfl, rfl, rfl, rfl, rfl, rfl, (holdoutEvaluation_ok hcandidate).1, hdump⟩

/-- What comes out of a built-in search: a trial for every candidate, the first of the
best of them, and that candidate fitted on the development rows and tried on the holdout. -/
structure BestDelivered [LT V] (lib : Learning F M) (value : F → V) (prepared : PreparedTabularData F)
    (holdout : SealedHoldout F) (candidates : List CandidateSpec) (result : TabularAutoMLResult F) : Prop where
  specs : result.trials.map (·.spec) = candidates
  numbers : result.trials.map (·.trialNumber) = List.range candidates.length
  selected : ∃ before trial after, result.trials = before ++ trial :: after ∧
    trial.spec = result.modelMetadata.spec ∧ trial.spec.family = result.evaluation.selectedFamily ∧
    trial.configHash = result.modelMetadata.configHash ∧
    trial.succeeded = some (result.modelMetadata.cvMetrics, result.evaluation.selectedCvScore) ∧
    Foremost value prepared.task.primaryMetric before result.evaluation.selectedCvScore after
  fitted : ∃ model, lib.fit result.modelMetadata.spec prepared.development = .ok model ∧
    lib.dump model = .ok result.modelBytes ∧
    lib.predict model holdout.features holdout.target prepared.taskType = .ok result.evaluation.candidateMetrics

theorem selected_is_best [LinearOrder V] (lib : Learning F M) (value : F → V) (number : F → Prop)
    (hc : Comparable lib value number) (prepared : PreparedTabularData F) (baselineSpec : CandidateSpec)
    (candidates : List CandidateSpec) (callback : Option (StageCallback F)) (s t : Session F)
    (result : TabularAutoMLResult F)
    (h : (Backend.sklearn baselineSpec candidates).run lib prepared callback s = (.ok result, t)) :
    BestDelivered lib value prepared s.holdout candidates result := by
  unfold Backend.run at h
  obtain ⟨_, s₁, hnotify, h⟩ := Act.bind_eq_ok h
  obtain ⟨selection, hselection, hd⟩ := execute_ok h
  rw [notify_holdout hnotify] at hd
  obtain ⟨htrials, hbest, hfit⟩ := selectCandidate_ok hselection
  have hnumber : ∀ p ∈ successes selection.trials, number p.2.2 := by
    intro p hp
    obtain ⟨trial, htrial, hsome⟩ := List.mem_filterMap.mp hp
    obtain ⟨succeeded, hsucceeded, rfl⟩ := Option.map_eq_some_iff.mp hsome
    have he := (runTrials_mem htrials htrial).2
    rw [hsucceeded] at he
    cases hok : evaluateCandidate lib prepared.development trial.spec with
    | error e => rw [hok] at he; cases he
    | ok pair =>
      rw [hok] at he
      cases he
      obtain ⟨hmetrics, metric, hlookup, hmean⟩ := evaluateCandidate_ok hok
      obtain ⟨_, _, hsplit, -⟩ := List.lookup_eq_some_iff.mp hlookup
      rw [← hmean]
      exact crossValidatedMetrics_number hc hmetrics
        (p := (prepared.development.primaryMetric, metric)) (by rw [hsplit]; simp)
  obtain ⟨before, trial, after, hsplit, hspec, hsucceeded, hforemost⟩ := best_foremost hc hnumber hbest
  have htrial : trial ∈ selection.trials := by
    rw [hsplit]
    exact List.mem_append_right _ List.mem_cons_self
  refine ⟨by rw [hd.trials, runTrials_specs htrials], ?_, ?_, ?_⟩
  · rw [hd.trials, runTrials_numbers htrials, List.range_eq_range']
  · refine ⟨before, trial, after, hd.trials.trans hsplit, hspec.trans hd.spec.symm, ?_, ?_, ?_, ?_⟩
    · rw [hspec, hd.family]
    · rw [(runTrials_mem htrials htrial).1, hspec, hd.configHash]
      rfl
    · rw [hsucceeded, hd.cvMetrics, hd.score]
    · rw [hd.score]
      exact hforemost
  · exact ⟨selection.fittedCandidate, by rw [hd.spec]; exact hfit, hd.dumped, hd.predicts⟩

/-- A learning whose forests err least. -/
def contestedLearning : Learning ℚ Unit :=
  { sampleLearning with
    crossValidate := fun spec d => .ok ((scoring d.taskType).map fun name =>
      (name, [if spec.family = "RANDOM_FOREST_REGRESSOR" then -1 else -2])) }

theorem contestedLearning_comparable : Comparable contestedLearning (fun x : ℚ => x) fun _ => True where
  less a b _ _ := by
    show decide (a < b) = true ↔ a < b
    exact decide_eq_true_iff
  mean _ _ _ := trivial
  folds spec d scores h score hs := by
    cases h
    obtain ⟨name, -, rfl⟩ := List.mem_map.mp hs
    simp

/-- On the sample the second candidate is delivered. -/
theorem forest_is_best : ∃ prepared result t,
    prepareFrame splitters sampleHashes sampleTable samplePreparation = .ok prepared ∧
      (Backend.builtIn prepared none).run contestedLearning prepared none (Session.start prepared) = (.ok result, t) ∧
      result.evaluation.selectedFamily = "RANDOM_FOREST_REGRESSOR" ∧
      BestDelivered contestedLearning (fun x : ℚ => x) prepared prepared.sealedHoldout (modelSpecs prepared.taskType).2
        result := by
  have hfamily : ((prepareFrame splitters sampleHashes sampleTable samplePreparation).toOption.bind fun prepared =>
      ((Backend.builtIn prepared none).run contestedLearning prepared none (Session.start prepared)).1.toOption.map
        (·.evaluation.selectedFamily)) = some "RANDOM_FOREST_REGRESSOR" := by decide +kernel
  obtain ⟨prepared, hp, hrun⟩ := Option.bind_eq_some_iff.mp hfamily
  obtain ⟨result, hr, hf⟩ := Option.map_eq_some_iff.mp hrun
  cases hout : (Backend.builtIn prepared none).run contestedLearning prepared none (Session.start prepared) with
  | mk r t =>
    rw [hout] at hr
    cases r with
    | error e => cases hr
    | ok delivered =>
      obtain rfl : delivered = result := Option.some.inj hr
      exact ⟨prepared, delivered, t, except_toOption_eq_some hp, hout, hf,
        selected_is_best contestedLearning _ _ contestedLearning_comparable prepared (modelSpecs prepared.taskType).1
          (modelSpecs prepared.taskType).2 none _ t delivered hout⟩

end AutomlApi.Engine
