import AutomlApi.Engine.Execution

/-! When an execution opens its holdout. The built-in search opens it after the TRAIN
stage has been published; the assembly of a native result opens it before. -/

namespace AutomlApi.Engine

open Act (Within check within_bind)

variable {F M : Type}

/-- The holdout is opened at most once, and where there is a callback only after it has
returned from the TRAIN stage. -/
structure SealKept (callback : Option (StageCallback F)) (log : List Moment) : Prop where
  once : log.count .opened ≤ 1
  after : callback.isSome → ∀ earlier later, log = earlier ++ .opened :: later → .published .train ∈ earlier

/-- A log in which the holdout stays sealed. -/
theorem sealKept_of_not_mem {callback : Option (StageCallback F)} {log : List Moment} (h : .opened ∉ log) :
    SealKept callback log := by
  refine ⟨by rw [List.count_eq_zero_of_not_mem h]; omega, fun _ earlier later he => absurd ?_ h⟩
  rw [he]
  exact List.mem_append_right earlier List.mem_cons_self

/-- A log in which it is opened in one place. -/
theorem sealKept_of_split {callback : Option (StageCallback F)} {l l' : List Moment} (hl : .opened ∉ l)
    (hl' : .opened ∉ l') (h : callback.isSome → .published .train ∈ l) : SealKept callback (l ++ .opened :: l') := by
  refine ⟨?_, fun hc earlier later he => ?_⟩
  · rw [List.count_append, List.count_cons_self, List.count_eq_zero_of_not_mem hl, List.count_eq_zero_of_not_mem hl']
  · -- the opening that is found is the only one
    rcases List.append_eq_append_iff.mp he with ⟨m, rfl, hm⟩ | ⟨m, rfl, hm⟩
    · exact List.mem_append_left m (h hc)
    · cases m with
      | nil => simpa using h hc
      | cons x m =>
        cases hm
        exact absurd (List.mem_append_right earlier List.mem_cons_self) hl

/-! ### What is appended to the log -/

/-- The log grows, and the holdout stays as it is. -/
def Closed (s t : Session F) : Prop := ∃ l, t.log = s.log ++ l ∧ Moment.opened ∉ l

theorem Closed.refl (s : Session F) : Closed s s := ⟨[], by simp, by simp⟩

theorem Closed.trans {s t u : Session F} (h : Closed s t) (h' : Closed t u) : Closed s u := by
  obtain ⟨l, hl, hn⟩ := h
  obtain ⟨l', hl', hn'⟩ := h'
  exact ⟨l ++ l', by rw [hl', hl, List.append_assoc], by simp [hn, hn']⟩

theorem closed_trans (s t u : Session F) : Closed s t → Closed t u → Closed s u := Closed.trans

theorem closed_check {α : Type} (r : Except Raised α) : Within Closed (check r : Act (Session F) Raised α) :=
  Act.within_check Closed.refl r

theorem notify_some_ok {call : StageCallback F} {snapshot : Snapshot F} {s : Session F}
    (h : call s.log snapshot = .ok ()) :
    notify (some call) snapshot s = (.ok (), { s with log := s.log ++ [.published snapshot.phase] }) := by
  simp only [notify, Act.get_bind, h]
  rfl

theorem notify_some_error {call : StageCallback F} {snapshot : Snapshot F} {s : Session F} {e : Raised}
    (h : call s.log snapshot = .error e) : notify (some call) snapshot s = (.error e, s) := by
  simp only [notify, Act.get_bind, h]
  rfl

theorem closed_notify (callback : Option (StageCallback F)) (snapshot : Snapshot F) :
    Within Closed (notify callback snapshot) := by
  intro s
  cases callback with
  | none => exact Closed.refl s
  | some call =>
    cases h : call s.log snapshot with
    | error e => rw [notify_some_error h]; exact Closed.refl s
    | ok _ => rw [notify_some_ok h]; exact ⟨_, rfl, by simp⟩

/-- A callback that is there has been told of what was published. -/
theorem notify_published {callback : Option (StageCallback F)} {snapshot : Snapshot F} {s t : Session F}
    (h : notify callback snapshot s = (.ok (), t)) (hc : callback.isSome) : .published snapshot.phase ∈ t.log := by
  cases callback with
  | none => cases hc
  | some call =>
    cases hcall : call s.log snapshot with
    | error e => rw [notify_some_error hcall] at h; cases h
    | ok _ =>
      rw [notify_some_ok hcall] at h
      cases h
      exact List.mem_append_right _ List.mem_cons_self

theorem openOnce_sealed {s : Session F} (h : s.holdout.opened = false) :
    openOnce s = (.ok (s.holdout.features, s.holdout.target),
      { s with
        holdout := { s.holdout with opened := true, openCount := s.holdout.openCount + 1 }
        log := s.log ++ [.opened] }) := by
  simp only [openOnce, Act.get_bind, h]
  rfl

theorem openOnce_opened {s : Session F} (h : s.holdout.opened = true) :
    openOnce s = (.error (.exception "RuntimeError"), s) := by
  simp only [openOnce, Act.get_bind, h]
  rfl

/-- What follows the opening leaves one mark of it. -/
theorem openOnce_bind_log {α : Type} {k : FeatureFrame F × List (Cell F) → Act (Session F) Raised α}
    {P : List Moment → Prop} {s : Session F} (hk : ∀ p, Within Closed (k p))
    (hopened : s.holdout.opened = true → P s.log)
    (hsealed : s.holdout.opened = false → ∀ l, .opened ∉ l → P (s.log ++ .opened :: l)) :
    P ((openOnce >>= k) s).2.log := by
  cases h : s.holdout.opened with
  | true => rw [Act.bind_of_error (openOnce_opened h)]; exact hopened h
  | false =>
    rw [Act.bind_of_ok (openOnce_sealed h)]
    obtain ⟨l, hl, hn⟩ := hk (s.holdout.features, s.holdout.target) { s with
      holdout := { s.holdout with opened := true, openCount := s.holdout.openCount + 1 }
      log := s.log ++ [.opened] }
    rw [hl, List.append_assoc]
    exact hsealed h l hn

/-! ### The built-in search -/

theorem execute_seal (lib : Learning F M) (prepared : PreparedTabularData F) (baselineSpec : CandidateSpec)
    (candidates : List CandidateSpec) (callback : Option (StageCallback F)) {s : Session F} (hs : .opened ∉ s.log) :
    SealKept callback (execute lib prepared baselineSpec candidates callback s).2.log := by
  unfold execute
  cases selectCandidate lib prepared.development baselineSpec candidates with
  | error e => rw [Act.check_error_bind]; exact sealKept_of_not_mem hs
  | ok selection =>
    rw [Act.check_ok_bind]
    have hclosed := closed_notify callback (.train selection.baseline selection.trials) s
    cases hn : notify callback (.train selection.baseline selection.trials) s with
    | mk r t =>
      rw [hn] at hclosed
      obtain ⟨l, hl, hopened⟩ := hclosed
      have ht : .opened ∉ t.log := by rw [hl]; simp [hs, hopened]
      cases r with
      | error e => rw [Act.bind_of_error hn]; exact sealKept_of_not_mem ht
      | ok _ =>
        rw [Act.bind_of_ok hn]
        refine openOnce_bind_log (P := SealKept callback) (fun p => ?_) (fun _ => sealKept_of_not_mem ht)
          fun _ l' hl' => sealKept_of_split ht hl' (notify_published hn)
        -- after the holdout is open nothing else is logged
        refine within_bind closed_trans (closed_check _) fun _ => ?_
        refine within_bind closed_trans (closed_check _) fun _ => ?_
        refine within_bind closed_trans (closed_check _) fun _ => ?_
        refine within_bind closed_trans (Act.within_get Closed.refl) fun _ => ?_
        refine within_bind closed_trans (closed_check _) fun _ => ?_
        refine within_bind closed_trans (closed_check _) fun _ => ?_
        exact Act.within_pure Closed.refl _

/-! ### A native backend -/

/-- The assembly has its candidate's primary metric and its baseline. -/
def Assembles (lib : Learning F M) (prepared : PreparedTabularData F) (native : NativeCandidate F M) : Prop :=
  ∃ metric fitted, native.developmentMetrics.lookup prepared.task.primaryMetric = some metric ∧
    orModelTraining (fitBaseline lib prepared.development (modelSpecs prepared.taskType).1) = .ok fitted

/-- The holdout is opened where the assembly gets to it, and nowhere else. -/
theorem assembleNativeResult_log {lib : Learning F M} {prepared : PreparedTabularData F}
    {native : NativeCandidate F M} {callback : Option (StageCallback F)} {P : List Moment → Prop} {s : Session F}
    (hclosed : s.holdout.opened = true ∨ ¬ Assembles lib prepared native → P s.log)
    (hopened : s.holdout.opened = false → Assembles lib prepared native → ∀ l, .opened ∉ l →
      P (s.log ++ .opened :: l)) :
    P (assembleNativeResult lib prepared native callback s).2.log := by
  unfold assembleNativeResult
  cases hm : native.developmentMetrics.lookup prepared.task.primaryMetric with
  | none =>
    simp only
    rw [Act.check_error_bind]
    refine hclosed (.inr ?_)
    rintro ⟨metric, fitted, h, -⟩
    rw [hm] at h
    cases h
  | some metric =>
    simp only
    rw [Act.check_ok_bind]
    cases hf : orModelTraining (fitBaseline lib prepared.development (modelSpecs prepared.taskType).1) with
    | error e =>
      rw [Act.check_error_bind]
      refine hclosed (.inr ?_)
      rintro ⟨metric, fitted, -, h⟩
      rw [hf] at h
      cases h
    | ok fitted =>
      rw [Act.check_ok_bind]
      refine openOnce_bind_log (P := P) (fun p => ?_) (fun h => hclosed (.inl h))
        fun h l hl => hopened h ⟨metric, fitted, hm, hf⟩ l hl
      refine within_bind closed_trans (closed_check _) fun _ => ?_
      refine within_bind closed_trans (closed_check _) fun _ => ?_
      refine within_bind closed_trans (closed_check _) fun _ => ?_
      refine within_bind closed_trans (Act.within_get Closed.refl) fun _ => ?_
      refine within_bind closed_trans (closed_check _) fun _ => ?_
      refine within_bind closed_trans (closed_notify _ _) fun _ => ?_
      exact Act.within_pure Closed.refl _

/-- A native execution with a callback gets as far as the holdout: the PLAN stage is
published, the candidate is trained and reports the primary metric, and the baseline is
fitted. -/
def ReachesHoldout (lib : Learning F M) (prepared : PreparedTabularData F)
    (train : PreparedTabularData F → Except Raised (NativeCandidate F M)) (call : StageCallback F) : Prop :=
  call [] (.plan prepared.task prepared.split) = .ok () ∧ prepared.sealedHoldout.opened = false ∧
    ∃ native, train prepared = .ok native ∧ Assembles lib prepared native

/-- An execution, from its prepared data. -/
def Session.start (prepared : PreparedTabularData F) : Session F := { holdout := prepared.sealedHoldout }

/-- A native backend without a callback opens the holdout once. -/
theorem native_seal_none (lib : Learning F M) (prepared : PreparedTabularData F)
    (train : PreparedTabularData F → Except Raised (NativeCandidate F M)) :
    SealKept (none : Option (StageCallback F))
      ((Backend.native train).run lib prepared none (Session.start prepared)).2.log := by
  have hstart : Moment.opened ∉ (Session.start prepared).log := by simp [Session.start]
  unfold Backend.run
  rw [Act.bind_of_ok (show notify none _ (Session.start prepared) = (.ok (), Session.start prepared) from rfl)]
  cases h : train prepared with
  | error e => simp only [h]; rw [Act.check_error_bind]; exact sealKept_of_not_mem hstart
  | ok native =>
    simp only [h]
    rw [Act.check_ok_bind]
    exact assembleNativeResult_log (P := SealKept none) (fun _ => sealKept_of_not_mem hstart)
      fun _ _ l hl => sealKept_of_split hstart hl (fun hc => by cases hc)

/-- With a callback it keeps the seal only where it fails before the holdout. -/
theorem native_seal_some (lib : Learning F M) (prepared : PreparedTabularData F)
    (train : PreparedTabularData F → Except Raised (NativeCandidate F M)) (call : StageCallback F) :
    SealKept (some call) ((Backend.native train).run lib prepared (some call) (Session.start prepared)).2.log ↔
      ¬ ReachesHoldout lib prepared train call := by
  unfold Backend.run
  cases hcall : call [] (.plan prepared.task prepared.split) with
  | error e =>
    rw [Act.bind_of_error (notify_some_error (s := Session.start prepared) hcall)]
    refine iff_of_true (sealKept_of_not_mem (by simp [Session.start])) ?_
    rintro ⟨h, -⟩
    rw [hcall] at h
    cases h
  | ok _ =>
    rw [Act.bind_of_ok (notify_some_ok (s := Session.start prepared) hcall)]
    have hplan : Moment.opened ∉ [Moment.published .plan] := by simp
    cases h : train prepared with
    | error e =>
      simp only [h]
      rw [Act.check_error_bind]
      refine iff_of_true (sealKept_of_not_mem hplan) ?_
      rintro ⟨-, -, native, hn, -⟩
      rw [h] at hn
      cases hn
    | ok native =>
      simp only [h]
      rw [Act.check_ok_bind]
      refine assembleNativeResult_log (P := fun log => SealKept (some call) log ↔ _) (fun hc => ?_) fun ho ha l hl => ?_
      · refine iff_of_true (sealKept_of_not_mem hplan) ?_
        rintro ⟨-, ho, native', hn, ha⟩
        rw [h] at hn
        cases hn
        rcases hc with hc | hc
        · rw [Session.start] at hc
          rw [hc] at ho
          cases ho
        · exact hc ha
      · refine iff_of_false (fun hs => ?_) (not_not_intro ⟨hcall, ho, native, h, ha⟩)
        -- the log is [plan, opened, ...]
        have := hs.after rfl [.published .plan] l rfl
        simp at this

/-- The seal is kept but where a native backend with a callback reaches the holdout. -/
theorem seal_kept_iff (lib : Learning F M) (backend : Backend F M) (prepared : PreparedTabularData F)
    (callback : Option (StageCallback F)) :
    SealKept callback (backend.run lib prepared callback (Session.start prepared)).2.log ↔
      ∀ train call, backend = .native train → callback = some call → ¬ ReachesHoldout lib prepared train call := by
  cases backend with
  | sklearn baselineSpec candidates =>
    refine iff_of_true ?_ fun _ _ h => by cases h
    unfold Backend.run
    have hclosed := closed_notify callback (.plan prepared.task prepared.split) (Session.start prepared)
    cases hn : notify callback (.plan prepared.task prepared.split) (Session.start prepared) with
    | mk r t =>
      rw [hn] at hclosed
      obtain ⟨l, hl, hopened⟩ := hclosed
      have ht : .opened ∉ t.log := by rw [hl]; simpa [Session.start] using hopened
      cases r with
      | error e => rw [Act.bind_of_error hn]; exact sealKept_of_not_mem ht
      | ok _ => rw [Act.bind_of_ok hn]; exact execute_seal lib prepared baselineSpec candidates callback ht
  | native train =>
    cases callback with
    | none => exact iff_of_true (native_seal_none lib prepared train) fun _ _ _ h => by cases h
    | some call =>
      rw [native_seal_some]
      constructor
      · intro h _ _ ht hc
        cases ht
        cases hc
        exact h
      · exact fun h => h train call rfl rfl

/-- A learning whose every score is one. -/
def sampleLearning : Learning ℚ Unit where
  crossValidate _ d := .ok ((scoring d.taskType).map fun name => (name, [1]))
  fit _ _ := .ok ()
  predict _ _ _ taskType := .ok ((scoring taskType).map fun name => (name, 1))
  render _ _ _ := .ok []
  dump _ := .ok ""
  sha256 := id
  stableHash _ _ _ := ""
  less a b := a < b
  sub a b := a - b
  neg a := -a
  mean values := values.headD 0
  std _ := 0
  isFinite _ := true

/-- A native candidate with the metric it was selected by. -/
def sampleNative (prepared : PreparedTabularData ℚ) : Except Raised (NativeCandidate ℚ Unit) :=
  .ok {
    backendId := "tabpfn", spec := ⟨"TABPFN_FOUNDATION_MODEL", []⟩,
    developmentMetrics := [(prepared.task.primaryMetric, ⟨1, 0⟩)], fittedCandidate := (), modelBytes := "",
    nativeTrials := none }

/-- The run was paused while its TRAIN stage was published. -/
def pausedInTrain : StageCallback ℚ := fun _ snapshot =>
  match snapshot with
  | .plan _ _ => .ok ()
  | .train _ _ => .error (.exception "JobFenceError")

theorem native_breaks_seal :
    ∃ prepared, prepareFrame splitters sampleHashes sampleTable samplePreparation = .ok prepared ∧
      ¬ SealKept (some pausedInTrain) ((Backend.native sampleNative).run sampleLearning prepared (some pausedInTrain)
        (Session.start prepared)).2.log := by
  have hlog : ((prepareFrame splitters sampleHashes sampleTable samplePreparation).toOption.map fun prepared =>
      ((Backend.native sampleNative).run sampleLearning prepared (some pausedInTrain) (Session.start prepared)).2.log) =
      some [.published .plan, .opened] := by decide +kernel
  cases h : prepareFrame splitters sampleHashes sampleTable samplePreparation with
  | error e => rw [h] at hlog; cases hlog
  | ok prepared =>
    rw [h] at hlog
    refine ⟨prepared, rfl, fun hs => ?_⟩
    have := hs.after rfl [.published .plan] [] (Option.some.inj hlog)
    simp at this

end AutomlApi.Engine
