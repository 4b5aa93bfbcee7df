import AutomlApi.Workflow.Conduct

/-! How the publications keep the laws of their run. Each of them starts from data that
it may work on and a snapshot of the run that agrees with them, and leaves such data
and, where it returns a snapshot, one that agrees again. -/

namespace AutomlApi.Workflow

open Durable
open Jobs (Job Readings)

variable {lw : Leeway} {runId : ℕ} {d d' d'' : RunData}

/-- What a publication leaves as it is. -/
structure Grows (d d' : RunData) : Prop where
  stages : d.stages <+: d'.stages
  commands : d'.commands = d.commands
  packets : d'.packets = d.packets
  approvals : d'.approvals = d.approvals
  result : d'.result = d.result
  outcome : d'.run.outcome = d.run.outcome
  requiresApproval : d'.run.requiresApproval = d.run.requiresApproval
  inputs : d'.run.resolvedInputs = d.run.resolvedInputs
  columns : d'.run.profileColumns = d.run.profileColumns
  status : d'.run.status = d.run.status ∨ d'.run.status = .running

theorem Grows.refl (d : RunData) : Grows d d := ⟨List.prefix_rfl, rfl, rfl, rfl, rfl, rfl, rfl, rfl, rfl, .inl rfl⟩

theorem Grows.trans (h : Grows d d') (h' : Grows d' d'') : Grows d d'' where
  stages := h.stages.trans h'.stages
  commands := h'.commands.trans h.commands
  packets := h'.packets.trans h.packets
  approvals := h'.approvals.trans h.approvals
  result := h'.result.trans h.result
  outcome := h'.outcome.trans h.outcome
  requiresApproval := h'.requiresApproval.trans h.requiresApproval
  inputs := h'.inputs.trans h.inputs
  columns := h'.columns.trans h.columns
  status := by
    rcases h'.status with hs | hs
    · rw [hs]; exact h.status
    · exact .inr hs

theorem Grows.settled (h : Grows d d') (hc : d.Settled) : d'.Settled := by
  unfold RunData.Settled
  rw [h.commands]
  exact hc

/-- The data of a run that outputs may be committed to. -/
structure Open (lw : Leeway) (d : RunData) : Prop where
  sound : Sound d
  paired : lw.torn ∨ d.Paired
  adds : lw.appends ∨ d.run.status ≠ .terminal

/-- The data of a run that a worker may send on. -/
structure Working (lw : Leeway) (d : RunData) : Prop extends Open lw d where
  live : lw.revives ∨ d.run.status ≠ .terminal
  unpaused : lw.overrides ∨ d.run.status ≠ .paused
  unsealed : ¬ d.Sealed
  quiet : d.Quiet

/-- What holds of a run unless it has come to some status still holds when the run has grown. -/
theorem Grows.live {p : Prop} (hg : Grows d d') {status : RunStatus} (hs : status ≠ .running)
    (h : p ∨ d.run.status ≠ status) : p ∨ d'.run.status ≠ status := by
  rcases hg.status with hst | hst
  · rw [hst]; exact h
  · exact .inr (by rw [hst]; exact hs.symm)

theorem Grows.unsealed (hg : Grows d d') (h : ¬ d.Sealed) : ¬ d'.Sealed := by
  intro hsealed
  rcases hg.status with hst | hst
  · exact h ⟨hst ▸ hsealed.1, hg.outcome ▸ hsealed.2⟩
  · rw [RunData.Sealed, hst] at hsealed
    cases hsealed.1

theorem Grows.quiet (hg : Grows d d') (h : d.Quiet) : d'.Quiet := by
  unfold RunData.Quiet
  rw [hg.packets]
  exact h

theorem Grows.clear (hg : Grows d d') (h : d.Clear) : d'.Clear := by
  refine ⟨hg.quiet h.1, ?_⟩
  unfold RunData.Unasked
  rw [hg.approvals]
  exact h.2

theorem Open.grows (h : Open lw d) (hg : Grows d d') (hs : Sound d') (hp : lw.torn ∨ d'.Paired) : Open lw d' :=
  ⟨hs, hp, hg.live nofun h.adds⟩

theorem Working.grows (h : Working lw d) (hg : Grows d d') (ho : Open lw d') : Working lw d' :=
  ⟨ho, hg.live nofun h.live, hg.live nofun h.unpaused, hg.unsealed h.unsealed, hg.quiet h.quiet⟩

/-- The snapshot is what the data say of the run, unless it may be out of date. -/
structure Run.Current (stale : Prop) (run : Run) (d : RunData) : Prop where
  requiresApproval : run.requiresApproval = d.run.requiresApproval
  now : stale ∨ (run.runRevision = d.run.runRevision ∧ run.snapshotSeq = d.run.snapshotSeq)

theorem Run.current (stale : Prop) (d : RunData) : d.run.Current stale d := ⟨rfl, .inr ⟨rfl, rfl⟩⟩

variable {stale : Prop}

theorem Run.Current.revision {run : Run} (h : run.Current stale d) (hst : stale → lw.stale) :
    lw.stale ∨ run.runRevision = d.run.runRevision := h.now.imp hst And.left

/-! ### Events and outputs -/

@[simp] theorem update_empty (r : Run) : r.update {} false = r := by cases r; rfl

@[simp] theorem apply_empty (d : RunData) : d.apply (.run {} false) = d := by simp [RunData.apply]

theorem lawful_empty : Lawful lw d (.run {} false) := .notes rfl (.inr rfl) rfl (.inr rfl)

theorem does_emit {run : Run} {payload : Payload} (hc : Lawful lw d (.event payload run.runRevision)) :
    Does lw runId (emit runId run payload) d fun run' d' =>
      d' = d.append payload run.runRevision ∧ run' = d'.run := by
  refine does_bind (does_newId fun _ => does_bind (does_bind (does_change hc (does_pure ?_))))
  exact does_updateRun (fun _ => lawful_empty) ⟨apply_empty _, by rw [apply_empty, update_empty]⟩

theorem grows_append (d : RunData) (payload : Payload) (revision : ℕ) : Grows d (d.append payload revision) where
  stages := by rw [stages_append]; exact List.prefix_append _ _
  commands := rfl
  packets := rfl
  approvals := rfl
  result := rfl
  outcome := rfl
  requiresApproval := rfl
  inputs := rfl
  columns := rfl
  status := .inl rfl

theorem paired_append {payload : Payload} (ho : payload.output = none) (revision : ℕ) (h : lw.torn ∨ d.Paired) :
    lw.torn ∨ (d.append payload revision).Paired := by
  refine h.imp_right fun h => ?_
  unfold RunData.Paired
  rw [announced_append, committed_append, ho, show d.committed = d.announced from h]
  exact (List.append_nil _).symm

/-- An event that tells neither a stage nor an output. -/
theorem does_emit_plain (hw : Working lw d) {run : Run} (hrun : run.Current stale d) (hst : stale → lw.stale)
    {payload : Payload} (hs : payload.stage = none) (ho : payload.output = none) :
    Does lw runId (emit runId run payload) d fun run' d' =>
      Working lw d' ∧ Grows d d' ∧ run' = d'.run ∧ d'.outputs = d.outputs := by
  refine (does_emit (.emits hs ho (hrun.revision hst) hw.paired)).mono ?_
  rintro run' d' ⟨rfl, rfl⟩
  have hg := grows_append d payload run.runRevision
  exact ⟨hw.grows hg (hw.toOpen.grows hg (sound_append hw.sound hs _) (paired_append ho _ hw.paired)), hg, rfl, rfl⟩

theorem does_completeStage (hw : Working lw d) {run : Run} (hrun : run.Current stale d) (hst : stale → lw.stale)
    {phase : Phase} (hpackage : phase ≠ .package)
    (hbefore : phase = .ingest ∨ ∃ before ∈ d.stages, before.order + 1 = phase.order) :
    Does lw runId (completeStage runId run phase) d fun run' d' =>
      Working lw d' ∧ Grows d d' ∧ run' = d'.run ∧ phase ∈ d'.stages ∧ d'.outputs = d.outputs := by
  refine does_bind (does_find ?_)
  split
  · rename_i hany
    refine does_pure ⟨hw, .refl d, rfl, ?_, rfl⟩
    obtain ⟨e, he, hp⟩ := List.any_eq_true.mp hany
    exact List.mem_filterMap.mpr ⟨e, he, by rw [of_decide_eq_true hp]; rfl⟩
  · rename_i hany
    have hnew : phase ∉ d.stages := by
      intro hmem
      obtain ⟨e, he, hp⟩ := List.mem_filterMap.mp hmem
      refine hany (List.any_eq_true.mpr ⟨e, he, decide_eq_true ?_⟩)
      cases hpay : e.payload <;> simp_all [Payload.stage]
    have hstages := eq_take_of_prefix hw.sound.stages hnew hbefore
    refine (does_emit (.completes hstages hpackage (hrun.revision hst) hw.paired)).mono ?_
    rintro run' d' ⟨rfl, rfl⟩
    have hg := grows_append d (.stageCompleted phase) run.runRevision
    refine ⟨hw.grows hg (hw.toOpen.grows hg (sound_completes hw.sound hstages hpackage _) ?_), hg, rfl, ?_, rfl⟩
    · exact paired_append rfl _ hw.paired
    · rw [stages_append]
      exact List.mem_append_right _ (List.mem_singleton.mpr rfl)

/-- The slot of an output is free, or it is a quality report that may come twice. -/
def Free (lw : Leeway) (d : RunData) (o : Output) : Prop :=
  (lw.twice ∧ o.type = .dataQualityReport) ∨ ∀ x ∈ d.outputs, ¬ x.SameSlot o

/-- An output that is there is told by the next event. -/
theorem does_commitOutput (hw : Open lw d) {run : Run} (hrun : run.Current stale d) (hst : stale → lw.stale)
    {o : Output} (hfree : Free lw d o) :
    Does lw runId (commitOutput runId run o) d fun p d' =>
      Open lw d' ∧ Grows d d' ∧ p.2 = d'.run ∧ p.1.type = o.type ∧ p.1 ∈ d'.outputs := by
  refine does_bind (does_newId fun id => ?_)
  let o' : Output := { o with outputId := id, runRevision := run.runRevision, createdSeq := run.snapshotSeq + 1 }
  have hseq : lw.torn ∨ o'.createdSeq = d.events.length + 1 := by
    rcases hrun.now with h | h
    · exact .inl (lw.torn_of_stale (hst h))
    · exact .inr (by rw [← hw.sound.length, ← h.2])
  have hpaired : lw.torn ∨ (d.Paired ∧ o'.createdSeq = d.events.length + 1) := by
    rcases hw.paired with h | h
    · exact .inl h
    · exact hseq.imp_right fun hs => ⟨h, hs⟩
  have hcommit : (∀ x ∈ d.outputs, x.outputId ≠ o'.outputId) → Lawful lw d (.output o') := fun hnew =>
    .commits hw.adds hfree hnew hpaired
  refine does_bind (does_insert hcommit fun hnew => ?_)
  let d₁ : RunData := d.apply (.output o')
  have hlast : lw.torn ∨ d₁.committed = d₁.announced ++ [(id, d₁.events.length + 1)] := by
    refine hpaired.imp_right fun ⟨hp, hs⟩ => ?_
    show (d.outputs ++ [o']).map (fun o => (o.outputId, o.createdSeq)) = d.announced ++ [(id, d.events.length + 1)]
    rw [List.map_append, ← show d.committed = d.announced from hp, ← hs]
    rfl
  refine does_bind ((does_emit (.announces (d := d₁) (hrun.revision hst) hlast)).mono ?_)
  rintro run₁ d₂ ⟨rfl, rfl⟩
  refine does_bind (does_updateRun (fun _ => lawful_empty) ?_)
  rw [apply_empty, update_empty]
  have hg : Grows d (d₁.append (.outputCommitted id) run.runRevision) := by
    have := grows_append d₁ (.outputCommitted id) run.runRevision
    exact ⟨this.stages, rfl, rfl, rfl, rfl, rfl, rfl, rfl, rfl, .inl rfl⟩
  refine does_pure ⟨hw.grows hg ?_ ?_, hg, rfl, rfl, List.mem_append_right _ (List.mem_singleton.mpr rfl)⟩
  · exact sound_append (sound_apply hw.sound (hcommit hnew)) rfl _
  · refine hlast.imp_right fun h => ?_
    unfold RunData.Paired
    rw [announced_append, committed_append, h]
    rfl

theorem does_outputForType (type : OutputType) (trialNumber : Option ℕ) :
    Does lw runId (outputForType runId type trialNumber) d fun o d' => d' = d ∧
      o = d.outputs.find? fun o => o.type = type ∧ (trialNumber.isSome → o.trialNumber = trialNumber) :=
  does_bind (does_find (does_pure ⟨rfl, rfl⟩))

/-- What a search for an output says when it finds none. -/
theorem free_of_none {o : Output} (htrial : o.trialNumber.isSome → o.type = .trialResult)
    (h : d.outputs.find? (fun x => x.type = o.type ∧ (o.trialNumber.isSome → x.trialNumber = o.trialNumber)) = none) :
    Free lw d o := by
  refine .inr fun x hx hslot => ?_
  refine List.find?_eq_none.mp h x hx (decide_eq_true ⟨hslot.1, fun hsome => hslot.2 ?_⟩)
  rw [hslot.1]
  exact htrial hsome

theorem does_ensureOutput (hw : Open lw d) {run : Run} (hrun : run.Current stale d) (hst : stale → lw.stale)
    {o : Output} (htrial : o.trialNumber.isSome → o.type = .trialResult) :
    Does lw runId (ensureOutput runId run o) d fun p d' =>
      Open lw d' ∧ Grows d d' ∧ p.2.Current stale d' ∧ p.1.type = o.type ∧ p.1 ∈ d'.outputs := by
  refine does_bind ((does_outputForType o.type o.trialNumber).mono ?_)
  rintro existing d' ⟨rfl, rfl⟩
  cases hfind : d'.outputs.find? fun x =>
      x.type = o.type ∧ (o.trialNumber.isSome → x.trialNumber = o.trialNumber) with
  | some existing =>
    have htype := List.find?_some hfind
    exact does_pure ⟨hw, .refl _, hrun, (of_decide_eq_true htype).1, List.mem_of_find?_eq_some hfind⟩
  | none =>
    refine (does_commitOutput hw hrun hst (free_of_none htrial hfind)).mono ?_
    rintro p d' ⟨hw', hg, hp, htype, hmem⟩
    exact ⟨hw', hg, hp ▸ Run.current stale d', htype, hmem⟩

/-! ### Stages -/

/-- A change of the run that sends it on, or is no news of it. -/
theorem grows_update (d : RunData) (p : RunPatch) (hs : p.status = none ∨ p.status = some .running)
    (ho : p.outcome = none) (hi : p.resolvedInputs = none) (hc : p.profileColumns = none) :
    Grows d (d.apply (.run p false)) where
  stages := List.prefix_rfl
  commands := rfl
  packets := rfl
  approvals := rfl
  result := rfl
  outcome := by simp [RunData.apply, Run.update, ho]
  requiresApproval := rfl
  inputs := by simp [RunData.apply, Run.update, hi]
  columns := by simp [RunData.apply, Run.update, hc]
  status := by rcases hs with hs | hs <;> simp [RunData.apply, Run.update, hs]

/-- An update without a new revision leaves the snapshots of the run current. -/
theorem Run.Current.update {run : Run} (h : run.Current stale d) (p : RunPatch) :
    run.Current stale (d.apply (.run p false)) := ⟨h.requiresApproval, h.now⟩

/-- An update that is no news of the state of the run. -/
theorem does_note (hw : Working lw d) {p : RunPatch} (hp : p.loud = false) (hstep : lw.works ∨ p.executionStep = none)
    (hi : p.resolvedInputs = none) (hcolumns : p.profileColumns = none) :
    Does lw runId (updateRun runId p none false) d fun run' d' =>
      Working lw d' ∧ Grows d d' ∧ run' = d'.run ∧ d'.outputs = d.outputs ∧
        ∀ {stale} {run : Run}, run.Current stale d → run.Current stale d' := by
  have hc : Lawful lw d (.run p false) := .notes hp hstep hi (.inr hcolumns)
  have hquiet : p.status = none ∧ p.outcome = none := by
    simp only [RunPatch.loud, Bool.or_eq_false_iff, Option.isSome_eq_false_iff, Option.isNone_iff_eq_none] at hp
    exact ⟨hp.1.1.1.1.2, hp.1.1.1.2⟩
  have hg := grows_update d p (.inl hquiet.1) hquiet.2 hi hcolumns
  exact does_updateRun (fun _ => hc)
    ⟨hw.grows hg (hw.toOpen.grows hg (sound_apply hw.sound hc) hw.paired), hg, rfl, rfl, fun h => h.update p⟩

theorem does_advance (hw : Working lw d) (hworks : lw.works) (phase : Phase) (progress : ℕ) :
    Does lw runId (updateRun runId (advanced phase progress) none false) d fun run' d' =>
      Working lw d' ∧ Grows d d' ∧ run' = d'.run := by
  have hc : Lawful lw d (.run (advanced phase progress) false) :=
    .works hworks ⟨⟨_, rfl, by simp, by simp⟩, rfl, rfl, rfl⟩ hw.live hw.unpaused hw.unsealed hw.quiet
  have hg := grows_update d (advanced phase progress) (.inr rfl) rfl rfl rfl
  exact does_updateRun (fun _ => hc) ⟨hw.grows hg (hw.toOpen.grows hg (sound_apply hw.sound hc) hw.paired), hg, rfl⟩

theorem does_transitionRunningPhase (hw : Working lw d) {run : Run} (hrun : run.Current stale d)
    (hst : stale → lw.stale) (hworks : lw.works) (phase : Phase) (progress : ℕ) :
    Does lw runId (transitionRunningPhase runId run phase progress) d fun run' d' =>
      Working lw d' ∧ Grows d d' ∧ run'.Current stale d' := by
  have hrest : ∀ (updated : Run) (d₁ : RunData), Working lw d₁ → Grows d d₁ → updated.Current stale d₁ →
      Does lw runId (do
        let d ← find runId
        if d.events.any (·.payload = .phaseChanged phase .running) then pure updated
        else emit runId updated (.phaseChanged phase .running)) d₁ fun run' d' =>
          Working lw d' ∧ Grows d d' ∧ run'.Current stale d' := by
    intro updated d₁ hw₁ hg₁ hup
    refine does_bind (does_find ?_)
    split
    · exact does_pure ⟨hw₁, hg₁, hup⟩
    · refine (does_emit_plain hw₁ hup hst rfl rfl).mono ?_
      rintro run' d' ⟨hw', hg', rfl, -⟩
      exact ⟨hw', hg₁.trans hg', Run.current stale d'⟩
  unfold transitionRunningPhase
  split
  · exact does_bind (does_pure (hrest run d hw (.refl d) hrun))
  · refine does_bind ((does_advance hw hworks phase progress).mono ?_)
    rintro updated d₁ ⟨hw₁, hg₁, rfl⟩
    exact hrest _ d₁ hw₁ hg₁ (Run.current stale d₁)

/-- The records of a stage that the backend reports, from its split on. -/
theorem does_finishPlan (hw : Working lw d) {run : Run} (hrun : run.Current stale d) (hst : stale → lw.stale)
    (hworks : lw.works) (hprofile : .profile ∈ d.stages) (splitOutput : Output) :
    Does lw runId (finishPlan runId run splitOutput) d fun _ d' => Working lw d' ∧ Grows d d' ∧ .plan ∈ d'.stages := by
  refine does_bind ((does_note hw rfl (.inr rfl) rfl rfl).mono ?_)
  rintro - d₁ ⟨hw₁, hg₁, -, -, hcurrent⟩
  refine does_bind ((does_completeStage hw₁ (hcurrent hrun) hst (by simp)
    (.inr ⟨_, hg₁.stages.subset hprofile, rfl⟩)).mono ?_)
  rintro run₂ d₂ ⟨hw₂, hg₂, rfl, hplan, -⟩
  refine does_bind ((does_transitionRunningPhase hw₂ (Run.current stale d₂) hst hworks .train 55).mono ?_)
  rintro run₃ d₃ ⟨hw₃, hg₃, -⟩
  exact does_pure ⟨hw₃, hg₁.trans (hg₂.trans hg₃), hg₃.stages.subset hplan⟩

/-- What changes nothing but the artifacts. -/
theorem grows_artifacts (d : RunData) (artifacts : List Artifact) : Grows d { d with artifacts := artifacts } :=
  ⟨List.prefix_rfl, rfl, rfl, rfl, rfl, rfl, rfl, rfl, rfl, .inl rfl⟩

theorem Working.artifacts (h : Working lw d) (artifacts : List Artifact) :
    Working lw { d with artifacts := artifacts } :=
  have hs := h.sound
  ⟨⟨⟨hs.length, hs.numbers, hs.stages, hs.sealed, hs.closed, hs.evaluated, hs.asked, hs.question, hs.approval⟩,
    h.paired, h.adds⟩, h.live, h.unpaused, h.unsealed, h.quiet⟩

theorem does_linkArtifact (outputId : ℕ) (artifact : Artifact) :
    Does lw runId (linkArtifact runId outputId artifact) d fun _ d' =>
      ∃ artifacts, d' = { d with artifacts := artifacts } :=
  does_bind (does_change (.artifactOutput _ _) (does_pure ⟨_, rfl⟩))

theorem does_linkArtifacts (outputId : ℕ) (artifacts : List Artifact) :
    Does lw runId (linkArtifacts runId outputId artifacts) d fun _ d' =>
      ∃ artifacts, d' = { d with artifacts := artifacts } := by
  induction artifacts generalizing d with
  | nil => exact does_pure ⟨_, rfl⟩
  | cons artifact rest ih =>
    refine does_bind ((does_linkArtifact outputId artifact).mono ?_)
    rintro - d₁ ⟨artifacts, rfl⟩
    exact ih.mono fun _ d' ⟨artifacts', h⟩ => ⟨artifacts', h⟩

theorem does_splitStored (hw : Working lw d) {run : Run} (hrun : run.Current stale d) (hst : stale → lw.stale)
    (hworks : lw.works) (hprofile : .profile ∈ d.stages) (artifact : Artifact)
    (hfree : ∀ x ∈ d.outputs, x.type ≠ .splitManifest) :
    Does lw runId (splitStored runId run artifact) d fun _ d' => Working lw d' ∧ Grows d d' ∧ .plan ∈ d'.stages := by
  refine does_bind ((does_commitOutput hw.toOpen hrun hst (.inr fun x hx hs => hfree x hx hs.1)).mono ?_)
  rintro ⟨splitOutput, run₁⟩ d₁ ⟨ho₁, hg₁, rfl, -⟩
  have hw₁ := hw.grows hg₁ ho₁
  refine does_bind ((does_linkArtifact _ _).mono ?_)
  rintro - d₂ ⟨artifacts, rfl⟩
  have hg₂ := grows_artifacts d₁ artifacts
  refine (does_finishPlan (hw₁.artifacts artifacts) ⟨rfl, .inr ⟨rfl, rfl⟩⟩ hst hworks
    (hg₁.stages.subset hprofile) splitOutput).mono ?_
  rintro - d₃ ⟨hw₃, hg₃, hplan⟩
  exact ⟨hw₃, hg₁.trans (hg₂.trans hg₃), hplan⟩

/-- An artifact with these bytes may be there; otherwise the object store gets them. -/
theorem does_requestArtifact (kind mediaType sha256 : String) :
    Does lw runId (requestArtifact runId kind mediaType sha256) d fun _ d' => d' = d := by
  refine does_bind (does_find ?_)
  dsimp only
  split
  · exact does_pure rfl
  · exact does_bind (does_newId fun _ => does_pure rfl)

theorem does_artifactStored (p : PendingArtifact) :
    Does lw runId (artifactStored runId p) d fun _ d' => ∃ artifacts, d' = { d with artifacts := artifacts } := by
  refine does_bind fun s hd hrow => ends_write ⟨trivial, by simp [Write.about]⟩ ⟨d, hd, hrow, fun _ _ => ?_⟩
  exact does_insert (fun _ => .artifact _) fun _ => ⟨_, rfl⟩

/-- What a publication knows while the object store has its split: that no split is there,
and that its snapshot is current unless the run has ended. -/
structure PendingSplit.Fits (p : PendingSplit) (stale : Prop) (d : RunData) : Prop where
  current : p.run.Current stale d
  free : ∀ x ∈ d.outputs, x.type ≠ .splitManifest

theorem does_publishPlan (hw : Working lw d) {run : Run} (hrun : run.Current False d) (hworks : lw.works)
    (hprofile : .profile ∈ d.stages) (splitSha256 : String) :
    Does lw runId (publishPlan runId run splitSha256) d fun pending d' =>
      Working lw d' ∧ Grows d d' ∧ (pending = none → .plan ∈ d'.stages) ∧ ∀ p ∈ pending, p.Fits False d' := by
  refine does_bind (does_find ?_)
  split
  · rename_i hany
    have hplan : .plan ∈ d.stages := by
      obtain ⟨e, he, hp⟩ := List.any_eq_true.mp hany
      exact List.mem_filterMap.mpr ⟨e, he, by rw [of_decide_eq_true hp]; rfl⟩
    refine does_bind ((does_transitionRunningPhase hw hrun False.elim hworks .train 55).mono ?_)
    rintro run₁ d₁ ⟨hw₁, hg₁, -⟩
    exact does_pure ⟨hw₁, hg₁, fun _ => hg₁.stages.subset hplan, fun _ hp => by cases hp⟩
  · refine does_bind ((does_ensureOutput (o := .of .taskSpec .plan) hw.toOpen hrun False.elim nofun).mono ?_)
    rintro ⟨taskOutput, run₁⟩ d₁ ⟨ho₁, hg₁, -, -⟩
    have hw₁ := hw.grows hg₁ ho₁
    refine does_bind ((does_note hw₁ rfl (.inr rfl) rfl rfl).mono ?_)
    rintro run₂ d₂ ⟨hw₂, hg₂, rfl, -⟩
    have hg := hg₁.trans hg₂
    have hcurrent := Run.current False d₂
    refine does_bind ((does_outputForType .splitManifest none).mono ?_)
    rintro split d₃ ⟨rfl, hsplit⟩
    cases split with
    | some splitOutput =>
      refine does_bind ((does_finishPlan hw₂ hcurrent False.elim hworks (hg.stages.subset hprofile) splitOutput).mono ?_)
      rintro - d₄ ⟨hw₄, hg₄, hplan⟩
      exact does_pure ⟨hw₄, hg.trans hg₄, fun _ => hplan, fun _ hp => by cases hp⟩
    | none =>
      have hfree : ∀ x ∈ d₃.outputs, x.type ≠ .splitManifest := fun x hx htype => by
        simpa [htype] using List.find?_eq_none.mp hsplit.symm x hx
      refine does_bind ((does_requestArtifact _ _ _).mono ?_)
      rintro artifact d₄ rfl
      cases artifact with
      | inl artifact =>
        refine does_bind
          ((does_splitStored hw₂ hcurrent False.elim hworks (hg.stages.subset hprofile) artifact hfree).mono ?_)
        rintro - d₅ ⟨hw₅, hg₅, hplan⟩
        exact does_pure ⟨hw₅, hg.trans hg₅, fun _ => hplan, fun _ hp => by cases hp⟩
      | inr artifact =>
        refine does_pure ⟨hw₂, hg, nofun, ?_⟩
        rintro p ⟨⟩
        exact ⟨hcurrent, hfree⟩

theorem does_publishTrials (hw : Working lw d) {run : Run} (hrun : run.Current stale d) (hst : stale → lw.stale)
    (trialNumbers : List ℕ) :
    Does lw runId (publishTrials runId run trialNumbers) d fun run' d' =>
      Working lw d' ∧ Grows d d' ∧ run'.Current stale d' := by
  induction trialNumbers generalizing d run with
  | nil => exact does_pure ⟨hw, .refl d, hrun⟩
  | cons trialNumber rest ih =>
    refine does_bind ((does_ensureOutput (o := { Output.of .trialResult .train with trialNumber := some trialNumber })
      hw.toOpen hrun hst fun _ => rfl).mono ?_)
    rintro ⟨o, run₁⟩ d₁ ⟨ho₁, hg₁, hrun₁, -⟩
    have hw₁ := hw.grows hg₁ ho₁
    refine (ih hw₁ hrun₁).mono ?_
    rintro run₂ d₂ ⟨hw₂, hg₂, hrun₂⟩
    exact ⟨hw₂, hg₁.trans hg₂, hrun₂⟩

theorem does_publishTrain (hw : Working lw d) {run : Run} (hrun : run.Current stale d) (hst : stale → lw.stale)
    (hworks : lw.works) (hplan : .plan ∈ d.stages) (trialNumbers : List ℕ) :
    Does lw runId (publishTrain runId run trialNumbers) d fun _ d' =>
      Working lw d' ∧ Grows d d' ∧ .train ∈ d'.stages := by
  have hrest : ∀ (run : Run) (d₁ : RunData), Working lw d₁ → Grows d d₁ → run.Current stale d₁ → .train ∈ d₁.stages →
      Does lw runId (do
        let _ ← transitionRunningPhase runId run .evaluate 80
        pure ()) d₁ fun _ d' => Working lw d' ∧ Grows d d' ∧ .train ∈ d'.stages := by
    intro run d₁ hw₁ hg₁ hrun₁ htrain
    refine does_bind ((does_transitionRunningPhase hw₁ hrun₁ hst hworks .evaluate 80).mono ?_)
    rintro - d₂ ⟨hw₂, hg₂, -⟩
    exact does_pure ⟨hw₂, hg₁.trans hg₂, hg₂.stages.subset htrain⟩
  refine does_bind (does_find ?_)
  split
  · rename_i hany
    obtain ⟨e, he, hp⟩ := List.any_eq_true.mp hany
    have htrain : .train ∈ d.stages := List.mem_filterMap.mpr ⟨e, he, by rw [of_decide_eq_true hp]; rfl⟩
    exact does_bind (does_pure (hrest run d hw (.refl d) hrun htrain))
  · refine does_bind ((does_ensureOutput (o := .of .baselineResult .train) hw.toOpen hrun hst nofun).mono ?_)
    rintro ⟨o, run₁⟩ d₁ ⟨ho₁, hg₁, hrun₁, -⟩
    have hw₁ := hw.grows hg₁ ho₁
    refine does_bind ((does_publishTrials hw₁ hrun₁ hst trialNumbers).mono ?_)
    rintro run₂ d₂ ⟨hw₂, hg₂, hrun₂⟩
    have hg := hg₁.trans hg₂
    refine does_bind ((does_completeStage hw₂ hrun₂ hst (by simp)
      (.inr ⟨_, hg.stages.subset hplan, rfl⟩)).mono ?_)
    rintro run₃ d₃ ⟨hw₃, hg₃, rfl, htrain, -⟩
    exact hrest _ d₃ hw₃ (hg.trans hg₃) (Run.current stale d₃) htrain

/-- The phase that a stage ends. -/
def StageCall.phase : StageCall → Phase
  | plan _ => .plan
  | train _ => .train

/-- A publication leaves a run alone that has ended, and otherwise ends its stage or waits
for the object store. -/
theorem does_publishStage (call : StageCall) (hw : d.run.status ≠ .terminal → Working lw d) (hworks : lw.works)
    (hprofile : .profile ∈ d.stages)
    (hplan : ∀ trialNumbers, call = .train trialNumbers → d.run.status ≠ .terminal → .plan ∈ d.stages) :
    Does lw runId (publishStage runId call) d fun pending d' =>
      (d.run.status = .terminal ∧ pending = none ∧ d' = d) ∨
        (d.run.status ≠ .terminal ∧ Grows d d' ∧ (pending = none → call.phase ∈ d'.stages) ∧
          ∀ p ∈ pending, call.phase = .plan ∧ p.Fits False d') := by
  refine does_bind (does_find ?_)
  split
  · rename_i hs
    exact does_pure (.inl ⟨hs, rfl, rfl⟩)
  · rename_i hs
    cases call with
    | plan splitSha256 =>
      refine (does_publishPlan (hw hs) (Run.current False d) hworks hprofile splitSha256).mono ?_
      rintro pending d' ⟨-, hg, hdone, hfits⟩
      exact .inr ⟨hs, hg, hdone, fun p hp => ⟨rfl, hfits p hp⟩⟩
    | train trialNumbers =>
      refine does_bind ((does_publishTrain (hw hs) (Run.current False d) False.elim hworks (hplan _ rfl hs)
        trialNumbers).mono ?_)
      rintro - d' ⟨-, hg, htrain⟩
      exact does_pure (.inr ⟨hs, hg, fun _ => htrain, fun _ hp => by cases hp⟩)

theorem does_resumeStage (hw : Working lw d) {pending : PendingSplit} (hp : pending.Fits stale d)
    (hst : stale → lw.stale) (hworks : lw.works) (hprofile : .profile ∈ d.stages) (stored : Bool) :
    Does lw runId (resumeStage runId pending stored) d fun _ d' => Grows d d' ∧ .plan ∈ d'.stages := by
  unfold resumeStage
  cases stored with
  | false => exact does_raise _
  | true =>
    refine does_bind ((does_artifactStored _).mono ?_)
    rintro artifact d₁ ⟨artifacts, rfl⟩
    refine (does_splitStored (hw.artifacts artifacts) ⟨hp.current.requiresApproval, hp.current.now⟩ hst hworks
      hprofile artifact hp.free).mono ?_
    rintro - d₂ ⟨-, hg, hplan⟩
    exact ⟨(grows_artifacts d artifacts).trans hg, hplan⟩

/-! ### The final result -/

section Result

variable {r : Readings} {result : TrainingResult}

/-- Nothing of the run is open, and no answer waits. -/
structure Closable (lw : Leeway) (d : RunData) : Prop where
  clear : lw.leaves ∨ d.Clear
  settled : lw.unsettled ∨ d.Settled

theorem Closable.grows (h : Closable lw d) (hg : Grows d d') : Closable lw d' :=
  ⟨h.clear.imp_right hg.clear, h.settled.imp_right hg.settled⟩

/-- What a publication of the result may count on: the stages that come before it, and
that the run comes to an approval, or may end. -/
structure Publishable (lw : Leeway) (result : TrainingResult) (d : RunData) : Prop where
  working : Working lw d
  works : lw.works
  approves : lw.approves
  trained : .train ∈ d.stages
  ending : d.result = none → (d.run.requiresApproval ∧ result.exportable) ∨ Closable lw d

theorem Publishable.grows (h : Publishable lw result d) (hw : Working lw d') (hg : Grows d d') :
    Publishable lw result d' where
  working := hw
  works := h.works
  approves := h.approves
  trained := hg.stages.subset h.trained
  ending hopen := (h.ending (hg.result ▸ hopen)).imp (fun h => ⟨hg.requiresApproval.symm ▸ h.1, h.2⟩) (·.grows hg)

theorem Publishable.artifacts (h : Publishable lw result d) (artifacts : List Artifact) :
    Publishable lw result { d with artifacts := artifacts } :=
  h.grows (h.working.artifacts artifacts) (grows_artifacts d artifacts)

theorem Working.five (h : Working lw d) (hev : .evaluate ∈ d.stages) :
    d.stages = Phase.all.take 5 := by
  have hpackage : .package ∉ d.stages := h.sound.package_notMem h.unsealed
  exact eq_take_of_prefix h.sound.stages hpackage (.inr ⟨_, hev, rfl⟩)

theorem does_finalizeRunWithResult {resultManifestId : Option ℕ} {outcome : Outcome} {code : Option String}
    {p : RunPatch} {events : List Payload} {expected : Option ℕ} {Q : Run → RunData → Prop}
    (hc : d.result = none → ∀ id, Lawful lw d (.finalized ⟨resultManifestId.getD id, outcome, code⟩ p events))
    (h : d.result = none → ∀ id, Q (d.apply (.finalized ⟨resultManifestId.getD id, outcome, code⟩ p events)).run
      (d.apply (.finalized ⟨resultManifestId.getD id, outcome, code⟩ p events))) :
    Does lw runId (finalizeRunWithResult runId resultManifestId outcome code p events expected) d Q := by
  refine does_bind (does_find (does_bind (does_check fun _ _ => ?_)))
  split
  · exact does_raise _
  · rename_i hopen
    have hnone : d.result = none := by simpa using hopen
    exact does_bind (does_changeWithId (hc hnone) fun id => does_pure (h hnone id))

theorem does_conclude (h : Publishable lw result d) {run : Run} (hrun : run.Current False d)
    (hev : .evaluate ∈ d.stages) (modelId : ℕ) :
    Does lw runId (conclude r runId run result modelId) d fun pending _ => pending = none := by
  have hw := h.working
  unfold conclude
  split
  · refine does_bind (does_find ?_)
    have hrest : ∀ (approvalId : ℕ) (d₁ : RunData), Working lw d₁ → .evaluate ∈ d₁.stages →
        Does lw runId (do
          let _ ← mutateRunWithEvent runId (awaitingApproval approvalId modelId) (.approvalRequested approvalId)
            (some run.runRevision)
          pure (none : Option PendingResult)) d₁ fun pending _ => pending = none := by
      intro approvalId d₁ hw₁ hev₁
      refine does_bind (does_bind (does_find (does_bind (does_check fun _ _ => ?_))))
      exact does_bind (does_change (.awaits h.approves hw₁.live hw₁.unpaused hw₁.unsealed hw₁.quiet hev₁ hw₁.paired)
        (does_pure (does_pure rfl)))
    dsimp only
    cases hfind : d.approvals.find? (fun a => a.status = .opened) with
    | some approval => exact does_bind (does_pure (hrest _ d hw hev))
    | none =>
      refine does_bind (does_newId fun approvalId => ?_)
      have hunasked : d.Unasked := fun a ha => by simpa using List.find?_eq_none.mp hfind a ha
      have hc : ∀ a, Lawful lw d (.approval a) := fun a => .requests h.approves hw.live hunasked
      refine does_bind (does_insert (fun _ => hc _) fun _ => does_bind (does_pure (hrest _ _ ?_ hev)))
      exact ⟨⟨sound_apply hw.sound (hc _), hw.paired, hw.adds⟩, hw.live, hw.unpaused, hw.unsealed, hw.quiet⟩
  · rename_i hneither
    refine does_bind (does_finalizeRunWithResult (fun hopen id => ?_) fun _ _ => does_pure rfl)
    have hclosable := (h.ending hopen).resolve_left fun hboth => hneither ⟨hrun.requiresApproval ▸ hboth.1, hboth.2⟩
    exact .ends hopen (.succeeds h.approves (hw.five hev)) hclosable.clear hclosable.settled hw.paired

/-- What the run must be like where the publication waits for the object store. -/
def Site.Fits (d : RunData) : Site → Prop
  | .visualization .. => ∀ x ∈ d.outputs, x.type ≠ .evaluationReport
  | .model _ => .evaluate ∈ d.stages ∧ ∀ x ∈ d.outputs, x.type ≠ .modelCard
  | .report _ => .evaluate ∈ d.stages ∧ ∀ x ∈ d.outputs, x.type ≠ .runReport

structure PendingResult.Fits (p : PendingResult) (d : RunData) : Prop where
  current : p.run.Current False d
  site : p.site.Fits d

/-- The publication is over, or waits in a place that fits. -/
def Waits (result : TrainingResult) (d : RunData) (pending : Option PendingResult) (d' : RunData) : Prop :=
  ∀ p ∈ pending, p.Fits d' ∧ p.result = result ∧ Grows d d'

theorem Waits.grows {pending : Option PendingResult} (h : Waits result d' pending d'') (hg : Grows d d') :
    Waits result d pending d'' := fun p hp => ⟨(h p hp).1, (h p hp).2.1, hg.trans (h p hp).2.2⟩

theorem waits_none : Waits result d none d' := fun _ hp => by cases hp

/-- What a search for an output of a type says when it finds none. -/
theorem type_ne_of_none {type : OutputType}
    (h : none = d.outputs.find? fun o => o.type = type ∧ ((none : Option ℕ).isSome → o.trialNumber = none)) :
    ∀ x ∈ d.outputs, x.type ≠ type := fun x hx htype => by
  simpa [htype] using List.find?_eq_none.mp h.symm x hx

theorem does_reportStored (h : Publishable lw result d) {run : Run} (hrun : run.Current False d)
    (hev : .evaluate ∈ d.stages) (hfree : ∀ x ∈ d.outputs, x.type ≠ .runReport) (modelId : ℕ) (artifact : Artifact) :
    Does lw runId (reportStored r runId run result modelId artifact) d (Waits result d) := by
  refine does_bind ((does_commitOutput h.working.toOpen hrun False.elim (.inr fun x hx hs => hfree x hx hs.1)).mono ?_)
  rintro ⟨o, run₁⟩ d₁ ⟨ho₁, hg₁, rfl, -⟩
  have hw₁ := h.working.grows hg₁ ho₁
  refine does_bind ((does_linkArtifact _ _).mono ?_)
  rintro - d₂ ⟨artifacts, rfl⟩
  refine (does_conclude ((h.grows hw₁ hg₁).artifacts artifacts) ⟨rfl, .inr ⟨rfl, rfl⟩⟩
    (hg₁.stages.subset hev) modelId).mono ?_
  rintro pending d₃ rfl
  exact waits_none

theorem does_publishReport (h : Publishable lw result d) {run : Run} (hrun : run.Current False d)
    (hev : .evaluate ∈ d.stages) (records : List (Option ℕ)) (modelId : ℕ) :
    Does lw runId (publishReport r runId run result records modelId) d (Waits result d) := by
  refine does_bind ((does_outputForType .runReport none).mono ?_)
  rintro report d₁ ⟨rfl, hfind⟩
  cases report with
  | some report => exact (does_conclude h hrun hev modelId).mono fun _ _ hnone => hnone ▸ waits_none
  | none =>
    have hfree := type_ne_of_none hfind
    refine does_bind ((does_requestArtifact _ _ _).mono ?_)
    rintro artifact d₂ rfl
    cases artifact with
    | inl artifact => exact does_reportStored h hrun hev hfree modelId artifact
    | inr artifact =>
      refine does_pure ?_
      rintro p ⟨⟩
      exact ⟨⟨hrun, hev, hfree⟩, rfl, .refl _⟩

theorem does_modelStored (h : Publishable lw result d) {run : Run} (hrun : run.Current False d)
    (hev : .evaluate ∈ d.stages) (hfree : ∀ x ∈ d.outputs, x.type ≠ .modelCard) (records : List (Option ℕ))
    (artifact : Artifact) :
    Does lw runId (modelStored r runId run result records artifact) d (Waits result d) := by
  refine does_bind (does_newId fun modelId => ?_)
  refine does_bind ((does_commitOutput h.working.toOpen hrun False.elim (.inr fun x hx hs => hfree x hx hs.1)).mono ?_)
  rintro ⟨o, run₁⟩ d₁ ⟨ho₁, hg₁, rfl, -⟩
  have hw₁ := h.working.grows hg₁ ho₁
  refine does_bind ((does_linkArtifact _ _).mono ?_)
  rintro - d₂ ⟨artifacts, rfl⟩
  refine (does_publishReport ((h.grows hw₁ hg₁).artifacts artifacts) ⟨rfl, .inr ⟨rfl, rfl⟩⟩
    (hg₁.stages.subset hev) records modelId).mono ?_
  intro pending d₃ hwaits
  exact hwaits.grows (hg₁.trans (grows_artifacts d₁ artifacts))

theorem does_publishModel (h : Publishable lw result d) {run : Run} (hrun : run.Current False d)
    (records : List (Option ℕ)) :
    Does lw runId (publishModel r runId run result records) d (Waits result d) := by
  refine does_bind ((does_completeStage h.working hrun False.elim (by simp) (.inr ⟨_, h.trained, rfl⟩)).mono ?_)
  rintro run₁ d₁ ⟨hw₁, hg₁, rfl, hev₁, -⟩
  refine does_bind ((does_transitionRunningPhase hw₁ (Run.current False d₁) False.elim h.works .package 92).mono ?_)
  rintro run₂ d₂ ⟨hw₂, hg₂, hrun₂⟩
  have hg := hg₁.trans hg₂
  have h₂ := h.grows hw₂ hg
  have hev := hg₂.stages.subset hev₁
  refine does_bind ((does_outputForType .modelCard none).mono ?_)
  rintro card d₃ ⟨rfl, hfind⟩
  cases card with
  | some card =>
    dsimp only
    cases card.modelId with
    | some modelId => exact (does_publishReport h₂ hrun₂ hev records modelId).mono fun _ _ hw => hw.grows hg
    | none => exact does_raise _
  | none =>
    have hfree := type_ne_of_none hfind
    refine does_bind ((does_requestArtifact _ _ _).mono ?_)
    rintro artifact d₄ rfl
    cases artifact with
    | inl artifact => exact (does_modelStored h₂ hrun₂ hev hfree records artifact).mono fun _ _ hw => hw.grows hg
    | inr artifact =>
      refine does_pure ?_
      rintro p ⟨⟩
      exact ⟨⟨hrun₂, hev, hfree⟩, rfl, hg⟩

theorem does_commitEvaluation (h : Publishable lw result d) {run : Run} (hrun : run.Current False d)
    (hfree : ∀ x ∈ d.outputs, x.type ≠ .evaluationReport) (artifacts : List Artifact) (records : List (Option ℕ)) :
    Does lw runId (commitEvaluation r runId run result artifacts records) d (Waits result d) := by
  refine does_bind ((does_commitOutput h.working.toOpen hrun False.elim (.inr fun x hx hs => hfree x hx hs.1)).mono ?_)
  rintro ⟨o, run₁⟩ d₁ ⟨ho₁, hg₁, rfl, -⟩
  have hw₁ := h.working.grows hg₁ ho₁
  refine does_bind ((does_linkArtifacts _ _).mono ?_)
  rintro - d₂ ⟨artifacts', rfl⟩
  refine (does_publishModel ((h.grows hw₁ hg₁).artifacts artifacts') ⟨rfl, .inr ⟨rfl, rfl⟩⟩ records).mono ?_
  intro pending d₃ hwaits
  exact hwaits.grows (hg₁.trans (grows_artifacts d₁ artifacts'))

theorem does_publishVisualizations (h : Publishable lw result d) {run : Run} (hrun : run.Current False d)
    (hfree : ∀ x ∈ d.outputs, x.type ≠ .evaluationReport) (visualizations : List Visualization)
    (artifacts : List Artifact) (records : List (Option ℕ)) :
    Does lw runId (publishVisualizations r runId run result visualizations artifacts records) d (Waits result d) := by
  induction visualizations generalizing artifacts records with
  | nil => exact does_commitEvaluation h hrun hfree artifacts records
  | cons v rest ih =>
    unfold publishVisualizations
    cases v.content with
    | none => exact ih _ _
    | some sha256 =>
      refine does_bind ((does_requestArtifact _ _ _).mono ?_)
      rintro artifact d₁ rfl
      cases artifact with
      | inl artifact => exact ih _ _
      | inr artifact =>
        refine does_pure ?_
        rintro p ⟨⟩
        exact ⟨⟨hrun, hfree⟩, rfl, .refl _⟩

theorem does_publishResult (h : Publishable lw result d) {run : Run} (hrun : run.Current False d) :
    Does lw runId (publishResult r runId run result) d (Waits result d) := by
  refine does_bind ((does_outputForType .taskSpec none).mono ?_)
  rintro taskSpec d₁ ⟨rfl, -⟩
  refine does_bind ((does_outputForType .splitManifest none).mono ?_)
  rintro split d₂ ⟨rfl, -⟩
  cases taskSpec with
  | none => exact does_raise _
  | some taskSpec =>
    cases split with
    | none => exact does_raise _
    | some split =>
      refine does_bind ((does_outputForType .evaluationReport none).mono ?_)
      rintro report d₃ ⟨rfl, hfind⟩
      cases report with
      | none => exact does_publishVisualizations h hrun (type_ne_of_none hfind) _ _ _
      | some report => exact does_publishModel h hrun _

theorem does_resumeResult {p : PendingResult} (h : Publishable lw p.result d) (hp : p.Fits d) (stored : Bool) :
    Does lw runId (resumeResult r runId p stored) d (Waits p.result d) := by
  obtain ⟨artifact, run, result, site⟩ := p
  obtain ⟨hrun, hsite⟩ := hp
  unfold resumeResult
  cases stored with
  | true =>
    refine does_bind ((does_artifactStored _).mono ?_)
    rintro artifact d₁ ⟨artifacts, rfl⟩
    have h₁ := h.artifacts artifacts
    have hrun₁ : run.Current False { d with artifacts := artifacts } := ⟨hrun.requiresApproval, hrun.now⟩
    have hg := grows_artifacts d artifacts
    cases site with
    | visualization rest made records =>
      exact (does_publishVisualizations h₁ hrun₁ hsite _ _ _).mono fun _ _ hw => hw.grows hg
    | model records =>
      exact (does_modelStored h₁ hrun₁ hsite.1 hsite.2 _ _).mono fun _ _ hw => hw.grows hg
    | report modelId =>
      exact (does_reportStored h₁ hrun₁ hsite.1 hsite.2 _ _).mono fun _ _ hw => hw.grows hg
  | false =>
    cases site with
    | visualization rest made records => exact does_publishVisualizations h hrun hsite _ _ _
    | model records => exact does_raise _
    | report modelId => exact does_raise _

end Result

end AutomlApi.Workflow
