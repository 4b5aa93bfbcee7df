import AutomlApi.Workflow.Records

/-! The laws of a run: which changes the programs of the workflow make of it, and what
they have found in its data when they make them. An invariant of runs is what
every lawful change keeps. -/

namespace AutomlApi.Workflow

/-- The phases in their order. -/
def Phase.all : List Phase := [.ingest, .profile, .plan, .train, .evaluate, .package]

/-- The stage whose end an event tells. -/
def Payload.stage : Payload → Option Phase
  | .stageCompleted phase => some phase
  | _ => none

/-- The output that an event names. -/
def Payload.output : Payload → Option ℕ
  | .outputCommitted id => some id
  | _ => none

/-- The output that an event names, with the number of the event. -/
def Event.announces (e : Event) : Option (ℕ × ℕ) := e.payload.output.map fun id => (id, e.seq)

/-- Two outputs of which a run is to have only one: of a type, or of a trial. -/
def Output.SameSlot (o x : Output) : Prop := o.type = x.type ∧ (o.type = .trialResult → o.trialNumber = x.trialNumber)

instance (o x : Output) : Decidable (o.SameSlot x) := inferInstanceAs (Decidable (_ ∧ _))

namespace RunData

/-- The stages whose end has been told. -/
def stages (d : RunData) : List Phase := d.events.filterMap (·.payload.stage)

/-- The outputs that the events name. -/
def announced (d : RunData) : List (ℕ × ℕ) := d.events.filterMap Event.announces

/-- The outputs with the numbers that their events are to have. -/
def committed (d : RunData) : List (ℕ × ℕ) := d.outputs.map fun o => (o.outputId, o.createdSeq)

/-- Every output has its event, under the number that it predicts. -/
def Paired (d : RunData) : Prop := d.committed = d.announced

instance (d : RunData) : Decidable d.Paired := inferInstanceAs (Decidable (_ = _))

/-- The run has succeeded. -/
def Sealed (d : RunData) : Prop := d.run.status = .terminal ∧ d.run.outcome = some .succeeded

instance (d : RunData) : Decidable d.Sealed := inferInstanceAs (Decidable (_ ∧ _))

/-- No question of the run is open. -/
def Quiet (d : RunData) : Prop := ∀ p ∈ d.packets, p.status ≠ .opened

instance (d : RunData) : Decidable d.Quiet := inferInstanceAs (Decidable (∀ _ ∈ _, _))

/-- No approval of the run is open. -/
def Unasked (d : RunData) : Prop := ∀ a ∈ d.approvals, a.status ≠ .opened

instance (d : RunData) : Decidable d.Unasked := inferInstanceAs (Decidable (∀ _ ∈ _, _))

/-- Nothing of the run is open. -/
def Clear (d : RunData) : Prop := d.Quiet ∧ d.Unasked

instance (d : RunData) : Decidable d.Clear := inferInstanceAs (Decidable (_ ∧ _))

/-- No accepted answer waits to be taken up. -/
def Settled (d : RunData) : Prop := ∀ c ∈ d.commands, c.status ≠ .accepted

instance (d : RunData) : Decidable d.Settled := inferInstanceAs (Decidable (∀ _ ∈ _, _))

end RunData

/-! ### What a run is about -/

/-- The rows are independent of each other, and what is to be predicted is a column of the profile. -/
structure Run.Ready (r : Run) : Prop where
  iid : r.resolvedInputs.iidConfirmed = true
  target : ∃ target ∈ r.resolvedInputs.targetColumn, target ∈ r.profileColumns.getD []

instance (r : Run) : Decidable r.Ready :=
  decidable_of_iff (r.resolvedInputs.iidConfirmed = true ∧
    ∃ target ∈ r.resolvedInputs.targetColumn, target ∈ r.profileColumns.getD []) ⟨fun h => ⟨h.1, h.2⟩, fun h => ⟨h.1, h.2⟩⟩

/-- What a run would be asked about its profile. -/
def Run.questions (r : Run) : List Question := initialQuestions r (r.profileColumns.getD [])

/-- A run that is ready is one that there is nothing to ask about. -/
theorem ready_iff {r : Run} : r.Ready ↔ r.questions = [] := by
  have hiff : r.Ready ↔ r.resolvedInputs.iidConfirmed = true ∧
      ∃ target ∈ r.resolvedInputs.targetColumn, target ∈ r.profileColumns.getD [] := ⟨fun h => ⟨h.1, h.2⟩, fun h => ⟨h.1, h.2⟩⟩
  rw [hiff, Run.questions, initialQuestions, List.append_eq_nil_iff]
  cases r.resolvedInputs.targetColumn <;> cases r.resolvedInputs.iidConfirmed <;> simp

namespace RunData

/-- The run waits for the answer to all that there is to ask about it. -/
structure Asked (d : RunData) : Prop where
  waits : d.run.status = .waitingUser ∨ d.run.status = .paused
  opened : d.result = none
  packet : ∃ p ∈ d.packets, p.status = .opened ∧ p.questions = d.run.questions

/-- The run may be taken up after its profile: it is ready, or it has ended, or it waits for the answer. -/
def Cleared (d : RunData) : Prop := d.run.Ready ∨ d.run.status = .terminal ∨ d.Asked

end RunData

/-! ### Lawful changes -/

/-- What the changes of a program are allowed: to be of a worker, to open a question, to
bring a run to an approval or to its success, to be of a command, to send on a run
that has been paused or has ended or to commit outputs to one that has ended, to go on
from a snapshot that is out of date, to leave an output without its event, to commit a
second quality report, to end a run while something of it is open or an answer
waits, to profile a run, to close a question, to move a job to another step, to take an
answer, and which runs to create. -/
structure Leeway where
  works : Prop
  questions : Prop
  approves : Prop
  commands : Prop
  overrides : Prop
  revives : Prop
  appends : Prop
  stale : Prop
  torn : Prop
  twice : Prop
  leaves : Prop
  unsettled : Prop
  profiles : Prop
  closes : Prop
  moves : Prop
  answers : Prop
  creates : RunRequest → String → Prop
  torn_of_stale : stale → torn

/-- Every allowance. -/
def Leeway.all : Leeway := ⟨True, True, True, True, True, True, True, True, True, True, True, True, True, True, True,
  True, fun _ _ => True, id⟩

/-- A worker sends the run on. -/
structure RunPatch.Works (p : RunPatch) : Prop where
  status : ∃ s, p.status = some s ∧ s ≠ .terminal ∧ s ≠ .waitingApproval
  outcome : p.outcome = none
  inputs : p.resolvedInputs = none
  columns : p.profileColumns = none

/-- How a run ends. -/
inductive RunData.Ends (lw : Leeway) (d : RunData) : Outcome → RunPatch → List Payload → Prop
  | succeeds (ha : lw.approves) (h : d.stages = Phase.all.take 5) :
      Ends lw d .succeeded Workflow.succeeded [.stageCompleted .package, .completed]
  | fails (code : String) : Ends lw d .failed failed [.failed code]
  | cancels : Ends lw d .canceled canceled [.canceled]

/-- The changes that programs make, each with what they have found. -/
inductive Lawful (lw : Leeway) (d : RunData) : Change → Prop
  | notes {p : RunPatch} (hp : p.loud = false) (hw : lw.works ∨ p.executionStep = none) (hi : p.resolvedInputs = none)
      (hprofile : lw.profiles ∨ p.profileColumns = none) : Lawful lw d (.run p false)
  | works {p : RunPatch} {bump : Bool} (hw : lw.works) (hp : p.Works) (hlive : lw.revives ∨ d.run.status ≠ .terminal)
      (hunpaused : lw.overrides ∨ d.run.status ≠ .paused) (hsealed : ¬ d.Sealed) (hquiet : d.Quiet) :
      Lawful lw d (.run p bump)
  | answers {resolved : Inputs} {id : ℕ} (h : d.run.status = .waitingUser) (hquiet : d.Quiet)
      (hresolved : ∃ answers, resolveAnswers d.run answers = .ok resolved) (ha : lw.answers) :
      Lawful lw d (.run (answered resolved id) true)
  | switches {run : Run} {status : RunStatus} {actions : List CommandType} (hc : lw.commands) (ht : status ≠ .terminal)
      (ha : status ≠ .waitingApproval) (h : d.run.status ≠ .terminal)
      (hquiet : status = .waitingUser ∨ status = .paused ∨ d.Quiet) :
      Lawful lw d (.run (switched run status actions) true)
  | emits {payload : Payload} {revision : ℕ} (hs : payload.stage = none) (ho : payload.output = none)
      (hrev : lw.stale ∨ revision = d.run.runRevision) (hpaired : lw.torn ∨ d.Paired) :
      Lawful lw d (.event payload revision)
  | completes {phase : Phase} {revision : ℕ} (hphase : d.stages = Phase.all.take phase.order)
      (hpackage : phase ≠ .package) (hrev : lw.stale ∨ revision = d.run.runRevision)
      (hpaired : lw.torn ∨ d.Paired) : Lawful lw d (.event (.stageCompleted phase) revision)
  | announces {id revision : ℕ} (hrev : lw.stale ∨ revision = d.run.runRevision)
      (hlast : lw.torn ∨ d.committed = d.announced ++ [(id, d.events.length + 1)]) :
      Lawful lw d (.event (.outputCommitted id) revision)
  | commits {o : Output} (hlive : lw.appends ∨ d.run.status ≠ .terminal)
      (hslot : (lw.twice ∧ o.type = .dataQualityReport) ∨ ∀ x ∈ d.outputs, ¬ x.SameSlot o)
      (hnew : ∀ x ∈ d.outputs, x.outputId ≠ o.outputId)
      (hpaired : lw.torn ∨ (d.Paired ∧ o.createdSeq = d.events.length + 1)) : Lawful lw d (.output o)
  | asks {p : DecisionPacket} (hq : lw.questions) (hwait : d.run.status = .waitingUser) (hquiet : d.Quiet)
      (hnew : ∀ q ∈ d.packets, q.decisionPacketId ≠ p.decisionPacketId) : Lawful lw d (.packet p)
  | closes {id : ℕ} {status : PacketStatus} {revision : ℕ} (hc : lw.closes) (hs : status ≠ .opened)
      (hlive : d.run.status ≠ .terminal) : Lawful lw d (.packetSet id status revision)
  | issues {c : Command} (hlive : d.run.status ≠ .terminal) (hc : lw.commands ∨ c.status ≠ .running) :
      Lawful lw d (.command c)
  | settles {id : ℕ} {revision : Option ℕ} : Lawful lw d (.commandSet id .succeeded revision)
  | requests {a : Approval} (ha : lw.approves) (hlive : lw.revives ∨ d.run.status ≠ .terminal)
      (hunasked : d.Unasked) : Lawful lw d (.approval a)
  | decides {id : ℕ} {status : ApprovalStatus} {version : ℕ} (hs : status ≠ .opened)
      (hwait : d.run.status = .waitingApproval) : Lawful lw d (.approvalSet id status version)
  | artifact (a : Artifact) : Lawful lw d (.artifact a)
  | artifactOutput (id outputId : ℕ) : Lawful lw d (.artifactOutput id outputId)
  | artifactState (id : ℕ) (state : ArtifactState) : Lawful lw d (.artifactState id state)
  | registers (id : ℕ) : Lawful lw d (.model id)
  | awaits {approvalId modelId : ℕ} (ha : lw.approves) (hlive : lw.revives ∨ d.run.status ≠ .terminal)
      (hunpaused : lw.overrides ∨ d.run.status ≠ .paused) (hsealed : ¬ d.Sealed) (hquiet : d.Quiet)
      (hevaluated : .evaluate ∈ d.stages) (hpaired : lw.torn ∨ d.Paired) :
      Lawful lw d (.mutated (awaitingApproval approvalId modelId) (.approvalRequested approvalId))
  | ends {result : Result} {p : RunPatch} {events : List Payload} (hopen : d.result = none)
      (hends : d.Ends lw result.outcome p events) (hleaves : lw.leaves ∨ d.Clear)
      (hsettled : lw.unsettled ∨ d.Settled) (hpaired : lw.torn ∨ d.Paired) :
      Lawful lw d (.finalized result p events)

/-! ### What every lawful change keeps -/

@[simp] theorem stages_append (d : RunData) (payload : Payload) (revision : ℕ) :
    (d.append payload revision).stages = d.stages ++ payload.stage.toList := by
  unfold RunData.stages RunData.append
  rw [List.filterMap_append]
  cases h : payload.stage <;> simp [h]

@[simp] theorem announced_append (d : RunData) (payload : Payload) (revision : ℕ) :
    (d.append payload revision).announced =
      d.announced ++ (payload.output.map fun id => (id, d.events.length + 1)).toList := by
  unfold RunData.announced RunData.append
  rw [List.filterMap_append]
  cases h : payload.output <;> simp [Event.announces, h]

@[simp] theorem committed_append (d : RunData) (payload : Payload) (revision : ℕ) :
    (d.append payload revision).committed = d.committed := rfl

theorem mem_take_all {phase : Phase} {n : ℕ} : phase ∈ Phase.all.take n ↔ phase.order < n := by
  rcases n with _ | _ | _ | _ | _ | _ | n <;> cases phase <;> simp [Phase.all, Phase.order]

/-- What is told of the stages is told in their order. -/
theorem mem_of_isPrefix {l : List Phase} (h : l <+: Phase.all) {phase : Phase} :
    phase ∈ l ↔ phase.order < l.length := by
  conv_lhs => rw [List.prefix_iff_eq_take.mp h]
  exact mem_take_all

theorem eq_take_of_prefix {l : List Phase} (h : l <+: Phase.all) {phase : Phase} (hnew : phase ∉ l)
    (hbefore : phase = .ingest ∨ ∃ before ∈ l, before.order + 1 = phase.order) :
    l = Phase.all.take phase.order := by
  rw [mem_of_isPrefix h] at hnew
  have hlength : l.length = phase.order := by
    rcases hbefore with rfl | ⟨before, hmem, horder⟩
    · exact Nat.le_zero.mp (not_lt.mp hnew)
    · have := (mem_of_isPrefix h).mp hmem
      omega
  rw [← hlength]
  exact List.prefix_iff_eq_take.mp h

theorem take_append_prefix (phase : Phase) : Phase.all.take phase.order ++ [phase] <+: Phase.all := by
  cases phase <;> decide

/-- The invariants that need no condition: the events are numbered, the stages end in
their order, the last one with the success of the run, an outcome comes with its
result, at most one question and one approval are open, and a run with an open
question does no work. -/
structure Sound (d : RunData) : Prop where
  length : d.run.snapshotSeq = d.events.length
  numbers : d.events.map Event.seq = List.range' 1 d.events.length
  stages : d.stages <+: Phase.all
  sealed : .package ∈ d.stages ↔ d.Sealed
  closed : d.run.outcome.isSome → d.result.isSome
  evaluated : d.run.status = .waitingApproval → .evaluate ∈ d.stages
  asked : d.run.status = .waitingUser ∨ d.run.status = .paused ∨ d.run.status = .terminal ∨ d.Quiet
  question : d.packets.countP (·.status = .opened) ≤ 1
  approval : d.approvals.countP (·.status = .opened) ≤ 1

theorem eq_of_countP_le {α : Type} {l : List α} {p : α → Bool} (h : l.countP p ≤ 1) {a b : α} (ha : a ∈ l) (hb : b ∈ l)
    (hpa : p a) (hpb : p b) : a = b := by
  rw [List.countP_eq_length_filter] at h
  have ha' : a ∈ l.filter p := List.mem_filter.mpr ⟨ha, hpa⟩
  have hb' : b ∈ l.filter p := List.mem_filter.mpr ⟨hb, hpb⟩
  obtain ⟨x, hx⟩ : ∃ x, l.filter p = [x] := List.length_eq_one_iff.mp (le_antisymm h (List.length_pos_of_mem ha'))
  rw [hx, List.mem_singleton] at ha' hb'
  rw [ha', hb']

theorem countP_updateItem_le {α : Type} (items : List α) (key : α → ℕ) (id : ℕ) {f : α → α} {p : α → Bool}
    (hf : ∀ a, p (f a) = false) : (RunData.updateItem items key id f).countP p ≤ items.countP p := by
  rw [RunData.updateItem, List.countP_map]
  refine List.countP_mono_left fun a _ h => ?_
  simp only [Function.comp_apply] at h
  split at h
  · rw [hf a] at h
    cases h
  · exact h

/-- The only open item is closed. -/
theorem closed_updateItem {α : Type} {items : List α} {key : α → ℕ} {f : α → α} {p : α → Bool} (hf : ∀ a, p (f a) = false)
    (h : items.countP p ≤ 1) {a : α} (ha : a ∈ items) (hpa : p a) {x : α}
    (hx : x ∈ RunData.updateItem items key (key a) f) : p x = false := by
  obtain ⟨b, hb, rfl⟩ := List.mem_map.mp hx
  split
  · exact hf b
  · rename_i hne
    by_contra hpb
    exact hne (congrArg key (eq_of_countP_le h hb ha (by simpa using hpb) hpa))

variable {lw : Leeway} {d : RunData}

/-- A new event keeps the numbers. -/
theorem numbers_append (h : d.events.map Event.seq = List.range' 1 d.events.length) (payload : Payload)
    (revision : ℕ) : (d.append payload revision).events.map Event.seq =
      List.range' 1 (d.append payload revision).events.length := by
  simp only [RunData.append, List.map_append, h, List.map_cons, List.map_nil, List.length_append,
    List.length_singleton, List.range'_concat]
  rw [Nat.one_mul, Nat.add_comm]

theorem Sound.package_notMem (h : Sound d) (hs : ¬ d.Sealed) : .package ∉ d.stages := fun hm => hs (h.sealed.mp hm)

/-- A change of the run that neither ends it nor brings it to an approval. -/
theorem sound_update (h : Sound d) (hs : ¬ d.Sealed) {p : RunPatch} (bump : Bool)
    (hp : ∃ s, p.status = some s ∧ s ≠ .terminal ∧ s ≠ .waitingApproval)
    (ho : p.outcome = none ∨ p.outcome = some none)
    (hasked : p.status = some .waitingUser ∨ p.status = some .paused ∨ d.Quiet) : Sound (d.apply (.run p bump)) := by
  obtain ⟨s, hstatus, ht, ha⟩ := hp
  have hnew : (d.apply (.run p bump)).run.status = s := by simp [RunData.apply, Run.update, hstatus]
  refine ⟨h.length, h.numbers, h.stages, ?_, ?_, ?_, ?_, h.question, h.approval⟩
  · constructor
    · intro hm
      exact absurd hm (h.package_notMem hs)
    · rintro ⟨hterm, -⟩
      exact absurd (hnew.symm.trans hterm) ht
  · intro hout
    refine h.closed ?_
    rcases ho with ho | ho
    · simpa [RunData.apply, Run.update, ho] using hout
    · simp [RunData.apply, Run.update, ho] at hout
  · intro hwait
    exact absurd (hnew.symm.trans hwait) ha
  · rw [hnew]
    rw [hstatus, Option.some_inj, Option.some_inj] at hasked
    exact hasked.imp_right (Or.imp_right .inr)

theorem length_append (d : RunData) (payload : Payload) (revision : ℕ) :
    (d.append payload revision).run.snapshotSeq = (d.append payload revision).events.length := by
  simp [RunData.append]

/-- An event that tells no stage. -/
theorem sound_append (h : Sound d) {payload : Payload} (hp : payload.stage = none) (revision : ℕ) :
    Sound (d.append payload revision) := by
  have hstages : (d.append payload revision).stages = d.stages := by simp [hp]
  refine ⟨length_append d _ _, numbers_append h.numbers payload revision, ?_, ?_, h.closed, ?_, h.asked, h.question,
    h.approval⟩
  · rw [hstages]; exact h.stages
  · rw [hstages]; exact h.sealed
  · rw [hstages]; exact h.evaluated

/-- The end of a stage other than the last. -/
theorem sound_completes (h : Sound d) {phase : Phase} (hphase : d.stages = Phase.all.take phase.order)
    (hpackage : phase ≠ .package) (revision : ℕ) : Sound (d.append (.stageCompleted phase) revision) := by
  have hstages : (d.append (.stageCompleted phase) revision).stages = d.stages ++ [phase] := stages_append ..
  refine ⟨length_append d _ _, numbers_append h.numbers _ _, ?_, ?_, h.closed, ?_, h.asked, h.question, h.approval⟩
  · rw [hstages, hphase]
    exact take_append_prefix phase
  · rw [hstages, List.mem_append, List.mem_singleton]
    simp only [Ne.symm hpackage, or_false]
    exact h.sealed
  · intro hwait
    rw [hstages]
    exact List.mem_append_left _ (h.evaluated hwait)

/-- The data of a run that has another run record and another result, as far as these go together. -/
theorem sound_with_run (h : Sound d) (run : Run) (result : Option Result) (hseq : run.snapshotSeq = d.run.snapshotSeq)
    (hsealed : .package ∈ d.stages ↔ run.status = .terminal ∧ run.outcome = some .succeeded)
    (hclosed : run.outcome.isSome → result.isSome) (hev : run.status = .waitingApproval → .evaluate ∈ d.stages)
    (hasked : run.status = .waitingUser ∨ run.status = .paused ∨ run.status = .terminal ∨ d.Quiet) :
    Sound { d with run := run, result := result } :=
  ⟨hseq.trans h.length, h.numbers, h.stages, hsealed, hclosed, hev, hasked, h.question, h.approval⟩

/-- The end of a run. -/
theorem sound_ends (h : Sound d) {result : Result} {p : RunPatch} {events : List Payload} (hopen : d.result = none)
    (hends : d.Ends lw result.outcome p events) : Sound (d.apply (.finalized result p events)) := by
  have hs : ¬ d.Sealed := fun hs => by
    have hclosed := h.closed (by rw [hs.2]; rfl)
    rw [hopen] at hclosed
    cases hclosed
  obtain ⟨manifest, outcome, code⟩ := result
  cases hends with
  | succeeds ha hstages =>
    let d₁ : RunData := { d with run := d.run.update succeeded true, result := some ⟨manifest, .succeeded, code⟩ }
    have hsix : (d₁.append (.stageCompleted .package) d₁.run.runRevision).stages = Phase.all := by
      rw [stages_append, show d₁.stages = Phase.all.take 5 from hstages]
      rfl
    have hpackage : Sound (d₁.append (.stageCompleted .package) d₁.run.runRevision) := by
      refine ⟨length_append d₁ _ _, numbers_append (d := d₁) h.numbers _ _, ?_, ?_, fun _ => rfl, ?_,
        .inr (.inr (.inl rfl)), h.question, h.approval⟩
      · exact hsix ▸ List.prefix_rfl
      · rw [hsix]
        exact ⟨fun _ => ⟨rfl, rfl⟩, fun _ => by decide⟩
      · intro hwait
        cases hwait
    exact sound_append hpackage rfl _
  | fails code' =>
    refine sound_append
      (sound_with_run h (d.run.update failed true) (some _) rfl ?_ (fun _ => rfl) (fun hwait => by cases hwait)
        (.inr (.inr (.inl rfl)))) rfl _
    exact ⟨fun hm => absurd hm (h.package_notMem hs), fun hout => by cases hout.2⟩
  | cancels =>
    refine sound_append
      (sound_with_run h (d.run.update canceled true) (some _) rfl ?_ (fun _ => rfl) (fun hwait => by cases hwait)
        (.inr (.inr (.inl rfl)))) rfl _
    exact ⟨fun hm => absurd hm (h.package_notMem hs), fun hout => by cases hout.2⟩

/-- Every lawful change keeps the invariants. -/
theorem sound_apply (h : Sound d) {c : Change} (hc : Lawful lw d c) : Sound (d.apply c) := by
  cases hc with
  | @notes p hp hw =>
    simp only [RunPatch.loud, Bool.or_eq_false_iff, Option.isSome_eq_false_iff, Option.isNone_iff_eq_none] at hp
    obtain ⟨⟨⟨⟨⟨-, hs⟩, ho⟩, -⟩, -⟩, -⟩ := hp
    have hstatus : (d.run.update p false).status = d.run.status := by simp [Run.update, hs]
    have houtcome : (d.run.update p false).outcome = d.run.outcome := by simp [Run.update, ho]
    refine sound_with_run h (d.run.update p false) d.result rfl ?_ ?_ ?_ ?_
    · rw [hstatus, houtcome]
      exact h.sealed
    · rw [houtcome]; exact h.closed
    · rw [hstatus]; exact h.evaluated
    · rw [hstatus]; exact h.asked
  | works hw hp hlive hunpaused hs hquiet => exact sound_update h hs _ hp.status (.inl hp.outcome) (.inr (.inr hquiet))
  | answers hwait hquiet =>
    have hs : ¬ d.Sealed := fun hs => by simp [hwait, RunData.Sealed] at hs
    exact sound_update h hs _ ⟨_, rfl, by simp, by simp⟩ (.inl rfl) (.inr (.inr hquiet))
  | switches hc ht ha hlive hquiet =>
    refine sound_update h (fun hs => hlive hs.1) _ ⟨_, rfl, ht, ha⟩ (.inr rfl) ?_
    exact hquiet.imp (congrArg some) (Or.imp_left (congrArg some))
  | emits hs => exact sound_append h hs _
  | completes hphase hpackage => exact sound_completes h hphase hpackage _
  | announces => exact sound_append h rfl _
  | @asks p hq hwait hquiet hnew =>
    refine ⟨h.length, h.numbers, h.stages, h.sealed, h.closed, h.evaluated, .inl hwait, ?_, h.approval⟩
    have hzero : d.packets.countP (·.status = .opened) = 0 := List.countP_eq_zero.mpr fun p hp => by simpa using hquiet p hp
    show (d.packets ++ [p]).countP (·.status = .opened) ≤ 1
    rw [List.countP_append, hzero, Nat.zero_add]
    exact List.countP_le_length
  | @closes id status revision hc hs hlive =>
    refine ⟨h.length, h.numbers, h.stages, h.sealed, h.closed, h.evaluated, ?_, ?_, h.approval⟩
    · refine h.asked.imp_right (Or.imp_right (Or.imp_right fun hquiet p hp => ?_))
      obtain ⟨q, hq, rfl⟩ := List.mem_map.mp hp
      split
      · exact hs
      · exact hquiet q hq
    · exact (countP_updateItem_le _ _ _ fun p => by simpa using hs).trans h.question
  | @requests a ha hlive hunasked =>
    refine ⟨h.length, h.numbers, h.stages, h.sealed, h.closed, h.evaluated, h.asked, h.question, ?_⟩
    have hzero : d.approvals.countP (·.status = .opened) = 0 := List.countP_eq_zero.mpr fun a ha => by simpa using hunasked a ha
    show (d.approvals ++ [a]).countP (·.status = .opened) ≤ 1
    rw [List.countP_append, hzero, Nat.zero_add]
    exact List.countP_le_length
  | @decides id status version hs hwait =>
    refine ⟨h.length, h.numbers, h.stages, h.sealed, h.closed, h.evaluated, h.asked, h.question, ?_⟩
    exact (countP_updateItem_le _ _ _ fun a => by simpa using hs).trans h.approval
  | @awaits approvalId modelId ha hlive hunpaused hs hquiet hev =>
    refine sound_append (sound_with_run h (d.run.update (awaitingApproval approvalId modelId) true) d.result rfl ?_
      (fun hout => by cases hout) (fun _ => hev) (.inr (.inr (.inr hquiet)))) rfl _
    exact ⟨fun hm => absurd hm (h.package_notMem hs), fun hout => by cases hout.1⟩
  | ends hopen hends => exact sound_ends h hopen hends
  | _ =>
    exact ⟨h.length, h.numbers, h.stages, h.sealed, h.closed, h.evaluated, h.asked, h.question, h.approval⟩

/-- A run that has just been created. -/
theorem sound_create (request : RunRequest) (tenantId : String) : Sound (.create (request.run tenantId)) := by
  refine ⟨rfl, rfl, List.nil_prefix, ?_, nofun, nofun, .inr (.inr (.inr fun p hp => absurd hp List.not_mem_nil)),
    Nat.zero_le _, Nat.zero_le _⟩
  exact ⟨fun h => absurd h List.not_mem_nil, fun h => by cases h.1⟩

end AutomlApi.Workflow
