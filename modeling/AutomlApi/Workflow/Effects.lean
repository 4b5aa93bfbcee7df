import AutomlApi.Workflow.Records

/-! What each program does to the standing of its run: its loud records, in their
order, from the standing that it starts in. -/

namespace AutomlApi.Workflow

open Durable
open Jobs (Job Readings Table)

/-- The outputs and packets of every run have ids that have been drawn. -/
def World.Drawn (w : World) : Prop :=
  ∀ runId d, w.runs.get runId = some d →
    (∀ o ∈ d.outputs, o.outputId ≤ w.ids) ∧ ∀ p ∈ d.packets, p.decisionPacketId ≤ w.ids

/-- A run is there, in a standing, beside a job table. -/
structure Stands (w : World) (runId : ℕ) (c : Standing) (jobs : Table ℕ) : Prop where
  get : w.standing runId = some c
  jobs : w.jobs = jobs
  drawn : w.Drawn

theorem mem_updateItem_key {α : Type} {items : List α} {key : α → ℕ} {id : ℕ} {f : α → α} {x : α}
    (hf : ∀ a, key (f a) = key a) (h : x ∈ RunData.updateItem items key id f) : ∃ a ∈ items, key a = key x := by
  obtain ⟨a, ha, rfl⟩ := List.mem_map.mp h
  refine ⟨a, ha, ?_⟩
  split
  · rw [hf]
  · rfl

theorem outputs_apply {d : RunData} {c : Change} {o : Output} (h : o ∈ (d.apply c).outputs) :
    o ∈ d.outputs ∨ c = .output o := by
  cases c with
  | output o' =>
    rcases List.mem_append.mp h with h | h
    · exact .inl h
    · rw [List.mem_singleton.mp h]; exact .inr rfl
  | finalized result p events =>
    rw [RunData.apply, foldl_append_eq RunData.outputs fun _ _ _ => rfl] at h
    exact .inl h
  | _ => exact .inl h

theorem packets_apply {d : RunData} {c : Change} {p : DecisionPacket} (h : p ∈ (d.apply c).packets) :
    (∃ q ∈ d.packets, q.decisionPacketId = p.decisionPacketId) ∨ c = .packet p := by
  cases c with
  | packet p' =>
    rcases List.mem_append.mp h with h | h
    · exact .inl ⟨p, h, rfl⟩
    · rw [List.mem_singleton.mp h]; exact .inr rfl
  | packetSet id status revision => exact .inl (mem_updateItem_key (by intro q; rfl) h)
  | finalized result q events =>
    rw [RunData.apply, foldl_append_eq RunData.packets fun _ _ _ => rfl] at h
    exact .inl ⟨p, h, rfl⟩
  | _ => exact .inl ⟨p, h, rfl⟩

theorem drawn_apply {w : World} {x : Write} (hw : w.Drawn) (hx : x.drawn w) : (w.apply x).Drawn := by
  have hle := ids_le_apply w x
  have hsame : ∀ runId d, w.runs.get runId = some d →
      (∀ o ∈ d.outputs, o.outputId ≤ (w.apply x).ids) ∧
        ∀ p ∈ d.packets, p.decisionPacketId ≤ (w.apply x).ids := fun runId d hd =>
    ⟨fun o ho => ((hw runId d hd).1 o ho).trans hle, fun p hp => ((hw runId d hd).2 p hp).trans hle⟩
  intro runId d hd
  cases x with
  | run id r =>
    simp only [World.apply, Dict.get_set] at hd
    split at hd
    · cases hd; exact ⟨fun o ho => absurd ho List.not_mem_nil, fun p hp => absurd hp List.not_mem_nil⟩
    · exact hsame runId d hd
  | on id c drawsId =>
    simp only [World.apply, get_modifyKey] at hd
    split at hd
    · obtain ⟨d', hd', rfl⟩ := Option.map_eq_some_iff.mp hd
      obtain ⟨ho, hp⟩ := hsame id d' hd'
      constructor
      · intro o h
        rcases outputs_apply h with h | rfl
        · exact ho o h
        · exact (of_decide_eq_true hx).trans hle
      · intro p h
        rcases packets_apply h with ⟨q, hq, hid⟩ | rfl
        · exact hid ▸ hp q hq
        · exact (of_decide_eq_true hx).trans hle
    · exact hsame runId d hd
  | _ => exact hsame runId d hd

theorem Minds.drawn {sc : Scope} {α : Type} {m : Prog α} (hm : Minds sc m) {s : World} (hs : s.Drawn) :
    (m.final s).Drawn := (hm s).writes.final (fun _ _ hw hx => drawn_apply hw hx.drawn) hs

theorem filter_of_quiet {sc : Scope} {α : Type} {m : Prog α} (hm : Minds sc m) (hq : sc.loud = false) (s : World) :
    (m s).2.filter Write.loud = [] := by
  rw [List.filter_eq_nil_iff]
  intro x hx
  have hquiet : Along (fun _ x => Write.loud x = false) s (m s).2 := (hm s).writes.mono fun _ _ h => h.quiet hq
  simp [along_iff.mp hquiet x hx]

variable {α β : Type} {s : World} {runId : ℕ} {c : Standing} {jobs : Table ℕ} {m : Prog α} {k : α → Prog β}
  {Q : Except Fault β → List Write → Prop}

theorem Stands.data (h : Stands s runId c jobs) : ∃ d, s.runs.get runId = some d ∧ d.standing = c :=
  Option.map_eq_some_iff.mp h.get

/-- A loud change of the run. -/
theorem Stands.on (h : Stands s runId c jobs) {ch : Change} {drawsId : Bool}
    (hx : (Write.on runId ch drawsId).drawn s) :
    Stands (replay s [Write.on runId ch drawsId]) runId (c.apply ch) jobs where
  get := by
    have := congrFun (congrArg View.standing (view_apply s (.on runId ch drawsId))) runId
    simp only [World.view, View.apply, Function.update_self, h.get] at this
    exact this
  jobs := h.jobs
  drawn := drawn_apply h.drawn hx

/-- A quiet part leaves the run in its standing. -/
theorem Stands.quiet (h : Stands s runId c jobs) (hm : Minds ⟨runId, false, true⟩ m) :
    Stands (m.final s) runId c jobs := by
  have hv : (m.final s).view = s.view := by rw [final, view_replay, filter_of_quiet hm rfl, replay_nil]
  exact ⟨(congrFun (congrArg View.standing hv) runId).trans h.get, (congrArg View.jobs hv).trans h.jobs,
    hm.drawn h.drawn⟩

/-- The rule for a quiet part. -/
theorem says_quiet_bind (h : Stands s runId c jobs) (hm : Minds ⟨runId, false, true⟩ m)
    (herror : ∀ e, Q (.error e) [])
    (hok : ∀ a t, (m s).1 = .ok a → Stands t runId c jobs → Says Write.loud (k a) t Q) :
    Says Write.loud (m >>= k) s Q := by
  refine says_bind ?_
  unfold Says
  rw [filter_of_quiet hm rfl]
  cases hr : (m s).1 with
  | error e => exact herror e
  | ok a => exact hok a _ hr (h.quiet hm)

/-- The rule for a quiet part that is known to return. -/
theorem says_quiet_bind_ok (h : Stands s runId c jobs) (hm : Minds ⟨runId, false, true⟩ m) {a : α}
    (ha : (m s).1 = .ok a) (hok : ∀ t, Stands t runId c jobs → Says Write.loud (k a) t Q) :
    Says Write.loud (m >>= k) s Q := by
  refine says_bind ?_
  unfold Says
  rw [filter_of_quiet hm rfl, ha]
  exact hok _ (h.quiet hm)

/-! ### Primitives -/

/-! ### Quiet parts and the run that they return -/

/-- What a step holds of a run is still so. -/
structure Run.Agrees (run : Run) (c : Standing) : Prop where
  revision : run.runRevision = c.revision
  phase : run.phase = c.phase

theorem agrees_standing (d : RunData) : d.run.Agrees d.standing := ⟨rfl, rfl⟩

theorem Stands.agrees (h : Stands s runId c jobs) {d : RunData} (hd : s.runs.get runId = some d) : d.run.Agrees c := by
  obtain ⟨d', hd', rfl⟩ := h.data
  cases hd.symm.trans hd'
  exact agrees_standing d

theorem updateRun_agrees (h : Stands s runId c jobs) (p : RunPatch) (expected : Option ℕ)
    (hrev : ∀ e ∈ expected, e = c.revision) (bump : Bool) :
    ∃ run, updateRun runId p expected bump s = (.ok run, [.on runId (.run p bump) false]) ∧
      run.Agrees (c.update p bump) := by
  obtain ⟨d, hd, rfl⟩ := h.data
  exact ⟨_, updateRun_eq hd p hrev bump, rfl, rfl⟩

theorem emit_ok (h : Stands s runId c jobs) (run : Run) (payload : Payload) :
    ∃ run', (emit runId run payload s).1 = .ok run' ∧ run'.Agrees c := by
  obtain ⟨d, hd, rfl⟩ := h.data
  exact ⟨_, congrArg Prod.fst (emit_eq hd run payload), rfl, rfl⟩

theorem completeStage_ok (h : Stands s runId c jobs) (run : Run) (phase : Phase) :
    ∃ run', (completeStage runId run phase s).1 = .ok run' ∧ run'.Agrees c := by
  obtain ⟨d, hd, hstands⟩ := h.data
  simp only [completeStage, bind_eq, find_eq hd, replay_nil]
  split
  · exact ⟨d.run, rfl, h.agrees hd⟩
  · exact emit_ok h run _

theorem commitOutput_ok (h : Stands s runId c jobs) (run : Run) (o : Output) :
    ∃ o' run', (commitOutput runId run o s).1 = .ok (o', run') ∧ run'.Agrees c := by
  obtain ⟨d, hd, rfl⟩ := h.data
  let o' : Output := { o with outputId := s.ids + 1, runRevision := run.runRevision, createdSeq := run.snapshotSeq + 1 }
  have hd1 : (final newId s).runs.get runId = some d := hd
  have hnew : ∀ x ∈ d.outputs, x.outputId ≠ s.ids + 1 := fun x hx => by
    have := (h.drawn runId d hd).1 x hx
    omega
  have hcreate : createOutput runId o' (final newId s) = (.ok o', [.on runId (.output o') false]) :=
    insert_eq hd1 _ _ hnew
  have h1 : Stands (final newId s) runId d.standing jobs := h.quiet (minds_newId)
  have hdrawn : (Write.on runId (.output o') false).drawn (final newId s) := decide_eq_true le_rfl
  have h2 := h1.on hdrawn
  obtain ⟨run₁, hrun₁, -⟩ := emit_ok h2 run (.outputCommitted (s.ids + 1))
  have h3 := h2.quiet (minds_emit run (.outputCommitted (s.ids + 1)))
  obtain ⟨run₂, hrun₂, hagrees⟩ := updateRun_agrees h3 {} none (by simp) false
  refine ⟨o', run₂, ?_, hagrees⟩
  unfold commitOutput
  rw [value_bind rfl, value_bind (congrArg Prod.fst hcreate), final, hcreate, value_bind hrun₁, value_bind]
  · rfl
  · exact congrArg Prod.fst hrun₂

theorem ensureOutput_ok (h : Stands s runId c jobs) {run : Run} (hrun : run.Agrees c) (o : Output) :
    ∃ o' run', (ensureOutput runId run o s).1 = .ok (o', run') ∧ run'.Agrees c := by
  obtain ⟨d, hd, -⟩ := h.data
  have hout : outputForType runId o.type o.trialNumber s =
      (.ok (d.outputs.find? fun x => x.type = o.type ∧ (o.trialNumber.isSome → x.trialNumber = o.trialNumber)), []) := by
    simp only [outputForType, bind_eq, find_eq hd]
    rfl
  simp only [ensureOutput, bind_eq, hout, replay_nil]
  generalize List.find? _ d.outputs = existing
  cases existing with
  | some existing => exact ⟨_, run, rfl, hrun⟩
  | none => exact commitOutput_ok h run o

/-! ### Stages -/

/-- The loud records of a transition to a phase: none when the run is there already. -/
def transitions (runId : ℕ) (c : Standing) (phase : Phase) (progress : ℕ) : List Write :=
  if phase.order ≤ c.phase.order then [] else [.on runId (.run (advanced phase progress) false) false]

theorem says_transitionRunningPhase (h : Stands s runId c jobs) {run : Run} (hrun : run.Agrees c) (phase : Phase)
    (progress : ℕ) :
    Says Write.loud (transitionRunningPhase runId run phase progress) s fun _ l =>
      l = transitions runId c phase progress := by
  have hrest : ∀ (updated : Run) (t : World) (c' : Standing), Stands t runId c' jobs → ∀ l, Says Write.loud (do
      let d ← find runId
      if d.events.any (·.payload = .phaseChanged phase .running) then pure updated
      else emit runId updated (.phaseChanged phase .running)) t fun _ l' => l ++ l' = l := by
    intro updated t c' ht l
    have hm : Minds ⟨runId, false, false⟩ (do
        let d ← find runId
        if d.events.any (·.payload = .phaseChanged phase .running) then pure updated
        else emit runId updated (.phaseChanged phase .running)) := minds_bind minds_find fun d => by
      split
      · exact minds_pure _
      · exact minds_emit updated _
    unfold Says
    rw [filter_of_quiet hm rfl]
    exact List.append_nil l
  unfold transitionRunningPhase transitions
  rw [hrun.phase]
  split
  · exact says_bind_ok rfl (hrest run s c h [])
  · obtain ⟨updated, hup, -⟩ := updateRun_agrees h (advanced phase progress) none (by simp) false
    exact says_bind_ok hup (hrest updated _ _ (h.on rfl) _)

/-- A part of a stage may fail before its transition. -/
def OrNone (l : List Write) (_ : Except Fault α) (l' : List Write) : Prop := l' = [] ∨ l' = l

theorem says_finishPlan (h : Stands s runId c jobs) (run : Run) (splitOutput : Output) :
    Says Write.loud (finishPlan runId run splitOutput) s (OrNone (transitions runId c .train 55)) := by
  refine says_quiet_bind h (minds_updateRun rfl fun _ => rfl) (fun _ => .inl rfl) fun _ t _ ht => ?_
  obtain ⟨run', hrun', hagrees⟩ := completeStage_ok ht run .plan
  refine says_quiet_bind_ok ht (minds_completeStage run .plan) hrun' fun u hu => ?_
  refine says_bind ((says_transitionRunningPhase hu hagrees .train 55).mono fun r l hl => ?_)
  cases r with
  | error e => exact .inr hl
  | ok a => exact .inr (by rw [hl]; exact List.append_nil _)

theorem says_splitStored (h : Stands s runId c jobs) (run : Run) (artifact : Artifact) :
    Says Write.loud (splitStored runId run artifact) s (OrNone (transitions runId c .train 55)) :=
  says_quiet_bind h (minds_commitOutput _ _) (fun _ => .inl rfl) fun _ _ _ ht =>
    says_quiet_bind ht (minds_linkArtifact _ _) (fun _ => .inl rfl) fun _ _ _ hu =>
      says_finishPlan hu _ _

/-- What follows a part that may say nothing says nothing itself. -/
theorem orNone_bind_pure {l : List Write} {b : β} (h : Says Write.loud m s (OrNone l)) :
    Says Write.loud (m >>= fun _ => pure b) s (OrNone l) := by
  refine says_bind (h.mono fun r l' hl => ?_)
  cases r with
  | error e => exact hl
  | ok a => exact hl.imp (fun h => by rw [h]; rfl) fun h => by rw [h]; exact List.append_nil _

theorem says_publishPlan (h : Stands s runId c jobs) {run : Run} (hrun : run.Agrees c) (splitSha256 : String) :
    Says Write.loud (publishPlan runId run splitSha256) s (OrNone (transitions runId c .train 55)) := by
  refine says_quiet_bind h (minds_find) (fun _ => .inl rfl) fun d t _ ht => ?_
  split
  · exact orNone_bind_pure ((says_transitionRunningPhase ht hrun .train 55).mono fun _ _ hl => .inr hl)
  · refine says_quiet_bind ht (minds_ensureOutput _ _) (fun _ => .inl rfl)
      fun o t _ ht => ?_
    refine says_quiet_bind ht (minds_updateRun rfl fun _ => rfl) (fun _ => .inl rfl)
      fun run t _ ht => ?_
    refine says_quiet_bind ht (minds_outputForType _ _) (fun _ => .inl rfl)
      fun splitOutput t _ ht => ?_
    cases splitOutput with
    | some splitOutput => exact orNone_bind_pure (says_finishPlan ht run splitOutput)
    | none =>
      refine says_quiet_bind ht (minds_requestArtifact _ _ _) (fun _ => .inl rfl)
        fun artifact t _ ht => ?_
      cases artifact with
      | inl artifact => exact orNone_bind_pure (says_splitStored ht run artifact)
      | inr artifact => exact .inl rfl

theorem says_publishTrain (h : Stands s runId c jobs) {run : Run} (hrun : run.Agrees c) (trialNumbers : List ℕ) :
    Says Write.loud (publishTrain runId run trialNumbers) s (OrNone (transitions runId c .evaluate 80)) := by
  have hrest : ∀ (run : Run) (t : World), run.Agrees c → Stands t runId c jobs → Says Write.loud (do
      let _ ← transitionRunningPhase runId run .evaluate 80
      pure ()) t (OrNone (transitions runId c .evaluate 80)) := fun run t hrun ht =>
    orNone_bind_pure ((says_transitionRunningPhase ht hrun .evaluate 80).mono fun _ _ hl => .inr hl)
  refine says_quiet_bind h (minds_find) (fun _ => .inl rfl) fun d t _ ht => ?_
  split
  · exact says_bind_ok rfl (hrest run t hrun ht)
  · refine says_quiet_bind ht (minds_ensureOutput _ _) (fun _ => .inl rfl)
      fun o t _ ht => ?_
    refine says_quiet_bind ht (minds_publishTrials _ _) (fun _ => .inl rfl)
      fun run t _ ht => ?_
    obtain ⟨run', hrun', hagrees⟩ := completeStage_ok ht run .train
    exact says_quiet_bind_ok ht (minds_completeStage run .train) hrun' fun u hu => hrest run' u hagrees hu

/-- The progress that a run has made when it leaves a stage. -/
def StageCall.progress : StageCall → ℕ
  | plan _ => 55
  | train _ => 80

/-- A publication says nothing about a run that has ended, and nothing but its transition. -/
theorem says_publishStage (h : Stands s runId c jobs) (call : StageCall) :
    Says Write.loud (publishStage runId call) s fun r l =>
      (c.status = .terminal → l = []) ∧ OrNone (transitions runId c call.next call.progress) r l := by
  obtain ⟨d, hd, rfl⟩ := h.data
  refine says_bind_ok (find_eq hd) ?_
  by_cases hs : d.run.status = .terminal
  · rw [if_pos hs]
    exact ⟨fun _ => rfl, .inl rfl⟩
  · rw [if_neg hs]
    have hdead : ∀ l : List Write, d.standing.status = .terminal → l = [] := fun _ h => absurd h hs
    cases call with
    | plan splitSha256 => exact (says_publishPlan h (agrees_standing d) splitSha256).mono fun r l hl => ⟨hdead _, hl⟩
    | train trialNumbers =>
      exact (orNone_bind_pure (says_publishTrain h (agrees_standing d) trialNumbers)).mono fun r l hl =>
        ⟨hdead _, hl⟩

theorem says_resumeStage (h : Stands s runId c jobs) (pending : PendingSplit) (stored : Bool) :
    Says Write.loud (resumeStage runId pending stored) s (OrNone (transitions runId c .train 55)) := by
  cases stored with
  | false => exact .inl rfl
  | true =>
    exact says_quiet_bind h (minds_artifactStored rfl _) (fun _ => .inl rfl)
      fun artifact t _ ht => says_splitStored ht _ _

/-! ### The final result -/

theorem Stands.isSome (h : Stands s runId c jobs) : (s.runs.get runId).isSome := by
  obtain ⟨d, hd, -⟩ := h.data
  rw [hd]
  rfl

/-- How `_publish_result` comes to an end of its turn, after its transition. -/
inductive Concludes (runId : ℕ) (c : Standing) : Except Fault (Option PendingResult) → List Write → Prop
  | waits (p : PendingResult) : Concludes runId c (.ok (some p)) []
  | fails (e : Fault) : Concludes runId c (.error e) []
  | opens (e : Fault) (a : Approval) (ha : a.status = .opened) :
      Concludes runId c (.error e) [.on runId (.approval a) false]
  | asks (id modelId : ℕ) (payload : Payload) (hid : (id, .opened) ∈ c.approvals) :
      Concludes runId c (.ok none) [.on runId (.mutated (awaitingApproval id modelId) payload) false]
  | opensAndAsks (a : Approval) (ha : a.status = .opened) (modelId : ℕ) (payload : Payload) :
      Concludes runId c (.ok none)
        [.on runId (.approval a) false, .on runId (.mutated (awaitingApproval a.approvalId modelId) payload) false]
  | succeeds (result : Result) (events : List Payload) :
      Concludes runId c (.ok none) [.on runId (.finalized result succeeded events) true]

section Result

variable {r : Readings} {result : TrainingResult}

theorem says_conclude (h : Stands s runId c jobs) (run : Run) (modelId : ℕ) :
    Says Write.loud (conclude r runId run result modelId) s (Concludes runId c) := by
  unfold conclude
  split
  · obtain ⟨d, hd, rfl⟩ := h.data
    refine says_bind_ok (find_eq hd) ?_
    rw [replay_nil]
    cases hfind : d.approvals.find? (fun a => a.status = .opened) with
    | some approval =>
      have hmem : (approval.approvalId, ApprovalStatus.opened) ∈ d.standing.approvals := by
        have hopen : approval.status = .opened := by simpa using List.find?_some hfind
        exact List.mem_map.mpr ⟨approval, List.mem_of_find?_eq_some hfind, by rw [Approval.stands, hopen]⟩
      refine says_pure_bind ?_
      rcases mutateRunWithEvent_cases h.isSome (awaitingApproval approval.approvalId modelId)
        (.approvalRequested approval.approvalId) (some run.runRevision) with ⟨e, he⟩ | ⟨run', he⟩
      · exact says_bind_error he (.fails e)
      · exact says_bind_ok he (.asks _ _ _ hmem)
    | none =>
      refine says_quiet_bind h minds_newId (fun e => .fails e) fun approvalId t _ ht => ?_
      rcases insert_cases ht.isSome "approval" RunData.approvals Approval.approvalId .approval
        ⟨approvalId, .opened, 1, r.fourth + 7⟩ with ⟨e, he⟩ | he
      · exact says_bind_error he (.fails e)
      · refine says_bind_ok he (says_pure_bind ?_)
        have hu : ((replay t [Write.on runId (.approval ⟨approvalId, .opened, 1, r.fourth + 7⟩) false]).runs.get
          runId).isSome := (ht.on rfl).isSome
        rcases mutateRunWithEvent_cases hu (awaitingApproval approvalId modelId)
          (.approvalRequested approvalId) (some run.runRevision) with ⟨e, he⟩ | ⟨run', he⟩
        · exact says_bind_error he (.opens e _ rfl)
        · exact says_bind_ok he (.opensAndAsks _ rfl _ _)
  · rcases finalizeRunWithResult_cases h.isSome none .succeeded (some "EVALUATED_CANDIDATE_REQUIRES_GATES") succeeded
      [.stageCompleted .package, .completed] (some run.runRevision) with ⟨e, he⟩ | ⟨run', res, he⟩
    · exact says_bind_error he (.fails e)
    · exact says_bind_ok he (.succeeds _ _)

theorem says_reportStored (h : Stands s runId c jobs) (run : Run) (modelId : ℕ) (artifact : Artifact) :
    Says Write.loud (reportStored r runId run result modelId artifact) s (Concludes runId c) :=
  says_quiet_bind h (minds_commitOutput _ _) (fun e => .fails e) fun _ _ _ ht =>
    says_quiet_bind ht (minds_linkArtifact _ _) (fun e => .fails e) fun _ _ _ hu => says_conclude hu _ _

theorem says_publishReport (h : Stands s runId c jobs) (run : Run) (records : List (Option ℕ)) (modelId : ℕ) :
    Says Write.loud (publishReport r runId run result records modelId) s (Concludes runId c) := by
  refine says_quiet_bind h (minds_outputForType _ _) (fun e => .fails e) fun report t _ ht => ?_
  cases report with
  | some report => exact says_conclude ht _ _
  | none =>
    refine says_quiet_bind ht (minds_requestArtifact _ _ _) (fun e => .fails e) fun artifact t _ ht => ?_
    cases artifact with
    | inl artifact => exact says_reportStored ht _ _ _
    | inr artifact => exact .waits _

theorem says_modelStored (h : Stands s runId c jobs) (run : Run) (records : List (Option ℕ)) (artifact : Artifact) :
    Says Write.loud (modelStored r runId run result records artifact) s (Concludes runId c) :=
  says_quiet_bind h minds_newId (fun e => .fails e) fun _ _ _ ht =>
    says_quiet_bind ht (minds_commitOutput _ _) (fun e => .fails e) fun _ _ _ ht =>
      says_quiet_bind ht (minds_linkArtifact _ _) (fun e => .fails e) fun _ _ _ ht => says_publishReport ht _ _ _

/-- A turn of `_publish_result`: its transition, if that is due, and the end of the turn. -/
def Publishes (runId : ℕ) (c : Standing) (r : Except Fault (Option PendingResult)) (l : List Write) : Prop :=
  ∃ l', Concludes runId c r l' ∧ (l = l' ∨ l = transitions runId c .package 92 ++ l')

theorem Concludes.publishes {r : Except Fault (Option PendingResult)} {l : List Write} (h : Concludes runId c r l) :
    Publishes runId c r l := ⟨l, h, .inl rfl⟩

/-- The end of the turn only reads the approvals. -/
theorem Concludes.congr {c' : Standing} {r : Except Fault (Option PendingResult)} {l : List Write}
    (h : Concludes runId c' r l) (hc : c'.approvals = c.approvals) : Concludes runId c r l := by
  cases h with
  | waits p => exact .waits p
  | fails e => exact .fails e
  | opens e a ha => exact .opens e a ha
  | asks id modelId payload hid => exact .asks id modelId payload (hc ▸ hid)
  | opensAndAsks a ha modelId payload => exact .opensAndAsks a ha modelId payload
  | succeeds result events => exact .succeeds result events

/-- What `publishModel` does once the run is in its last phase. -/
def packageModel (r : Readings) (runId : ℕ) (run : Run) (result : TrainingResult) (records : List (Option ℕ)) :
    Prog (Option PendingResult) := do
  match ← outputForType runId .modelCard none with
  | some card =>
    match card.modelId with
    | some modelId => publishReport r runId run result records modelId
    | none => raise (.runtime "KeyError: model_id")
  | none =>
    match ← requestArtifact runId result.artifactKind result.artifactMediaType result.modelSha256 with
    | .inl artifact => modelStored r runId run result records artifact
    | .inr artifact => pure (some ⟨artifact, run, result, .model records⟩)

theorem says_publishModel (h : Stands s runId c jobs) (run : Run) (records : List (Option ℕ)) :
    Says Write.loud (publishModel r runId run result records) s (Publishes runId c) := by
  obtain ⟨run', hrun', hagrees⟩ := completeStage_ok h run .evaluate
  refine says_quiet_bind_ok h (minds_completeStage run .evaluate) hrun' fun t ht => ?_
  have hrest : ∀ (run : Run) (u : World) (c' : Standing), c'.approvals = c.approvals → Stands u runId c' jobs →
      Says Write.loud (packageModel r runId run result records) u (Concludes runId c) := by
    intro run u c' hc hu
    refine Says.mono ?_ fun _ _ h => Concludes.congr h hc
    refine says_quiet_bind hu (minds_outputForType _ _) (fun e => .fails e) fun card t _ ht => ?_
    cases card with
    | some card =>
      dsimp only
      cases card.modelId with
      | some modelId => exact says_publishReport ht _ _ _
      | none => exact .fails _
    | none =>
      refine says_quiet_bind ht (minds_requestArtifact _ _ _) (fun e => .fails e) fun artifact t _ ht => ?_
      cases artifact with
      | inl artifact => exact says_modelStored ht _ _ _
      | inr artifact => exact .waits _
  refine says_bind ?_
  have htrans := says_transitionRunningPhase ht hagrees .package 92
  unfold Says at htrans ⊢
  rw [htrans]
  cases htv : (transitionRunningPhase runId run' .package 92 t).1 with
  | error e => exact ⟨[], .fails e, .inr (List.append_nil _).symm⟩
  | ok run₃ =>
    have hview : (final (transitionRunningPhase runId run' .package 92) t).view =
        replay t.view (transitions runId c .package 92) := by rw [final, view_replay, htrans]
    have hdrawn : (final (transitionRunningPhase runId run' .package 92) t).Drawn :=
      Minds.drawn (minds_transitionRunningPhase rfl _ rfl : Minds ⟨runId, true, true⟩ _) ht.drawn
    have hstands : ∃ c', c'.approvals = c.approvals ∧
        Stands (final (transitionRunningPhase runId run' .package 92) t) runId c' jobs := by
      have hget := congrFun (congrArg View.standing hview) runId
      have hjobs := congrArg View.jobs hview
      unfold transitions at hget hjobs
      split at hget
      · rename_i hle
        rw [if_pos hle] at hjobs
        exact ⟨c, rfl, hget.trans ht.get, hjobs.trans ht.jobs, hdrawn⟩
      · rename_i hle
        rw [if_neg hle] at hjobs
        refine ⟨c.update (advanced .package 92) false, rfl, ?_, hjobs.trans ht.jobs, hdrawn⟩
        have hone := (ht.on rfl : Stands (replay t [Write.on runId (.run (advanced .package 92) false) false]) _ _ _).get
        exact hget.trans ((congrFun (congrArg View.standing (view_replay t _)) runId).symm.trans hone)
    obtain ⟨c', hc', hu⟩ := hstands
    exact ⟨_, hrest run₃ _ c' hc' hu, .inr rfl⟩

theorem says_commitEvaluation (h : Stands s runId c jobs) (run : Run) (artifacts : List Artifact)
    (records : List (Option ℕ)) :
    Says Write.loud (commitEvaluation r runId run result artifacts records) s (Publishes runId c) :=
  says_quiet_bind h (minds_commitOutput _ _) (fun e => (Concludes.fails e).publishes) fun _ _ _ ht =>
    says_quiet_bind ht (minds_linkArtifacts _ _) (fun e => (Concludes.fails e).publishes) fun _ _ _ ht =>
      says_publishModel ht _ _

theorem says_publishVisualizations (h : Stands s runId c jobs) (run : Run) (visualizations : List Visualization)
    (artifacts : List Artifact) (records : List (Option ℕ)) :
    Says Write.loud (publishVisualizations r runId run result visualizations artifacts records) s
      (Publishes runId c) := by
  induction visualizations generalizing artifacts records s with
  | nil => exact says_commitEvaluation h _ _ _
  | cons v rest ih =>
    unfold publishVisualizations
    cases v.content with
    | none => exact ih h _ _
    | some sha256 =>
      refine says_quiet_bind h (minds_requestArtifact _ _ _) (fun e => (Concludes.fails e).publishes)
        fun artifact t _ ht => ?_
      cases artifact with
      | inl artifact => exact ih ht _ _
      | inr artifact => exact (Concludes.waits _).publishes

theorem says_publishResult (h : Stands s runId c jobs) (run : Run) :
    Says Write.loud (publishResult r runId run result) s (Publishes runId c) := by
  refine says_quiet_bind h (minds_outputForType _ _) (fun e => (Concludes.fails e).publishes) fun taskSpec t _ ht => ?_
  refine says_quiet_bind ht (minds_outputForType _ _) (fun e => (Concludes.fails e).publishes) fun split t _ ht => ?_
  cases taskSpec with
  | none => exact (Concludes.fails _).publishes
  | some taskSpec =>
    cases split with
    | none => exact (Concludes.fails _).publishes
    | some split =>
      refine says_quiet_bind ht (minds_outputForType _ _) (fun e => (Concludes.fails e).publishes)
        fun report t _ ht => ?_
      cases report with
      | none => exact says_publishVisualizations ht _ _ _ _
      | some report => exact says_publishModel ht _ _

theorem says_resumeResult (h : Stands s runId c jobs) (p : PendingResult) (stored : Bool) :
    Says Write.loud (resumeResult r runId p stored) s (Publishes runId c) := by
  unfold resumeResult
  cases stored with
  | true =>
    refine says_quiet_bind h (minds_artifactStored rfl _) (fun e => (Concludes.fails e).publishes)
      fun artifact t _ ht => ?_
    cases p.site with
    | visualization rest artifacts records => exact says_publishVisualizations ht _ _ _ _
    | model records => exact (says_modelStored ht _ _ _).mono fun _ _ h => h.publishes
    | report modelId => exact (says_reportStored ht _ _ _).mono fun _ _ h => h.publishes
  | false =>
    cases p.site with
    | visualization rest artifacts records => exact says_publishVisualizations h _ _ _ _
    | model records => exact (Concludes.fails _).publishes
    | report modelId => exact (Concludes.fails _).publishes

/-- The turn of the handler that a turn of `_publish_result` is. -/
def turnOf : Except Fault (Option PendingResult) → Except Fault Turn
  | .ok (some p) => .ok (.yields (.publishing p))
  | .ok none => .ok (.returns .complete)
  | .error e => .error e

theorem says_published {m : Prog (Option PendingResult)} {Q : Except Fault (Option PendingResult) → List Write → Prop}
    (h : Says Write.loud m s Q) :
    Says Write.loud (m >>= published) s fun r l => ∃ r', r = turnOf r' ∧ Q r' l := by
  refine says_bind (h.mono fun r l hl => ?_)
  cases r with
  | error e => exact ⟨.error e, rfl, hl⟩
  | ok p => cases p <;> exact ⟨.ok _, rfl, (List.append_nil l).symm ▸ hl⟩

end Result

/-! ### The steps of the handler -/

/-- A packet that a run is asked by. -/
structure Asks (c : Standing) (p : DecisionPacket) : Prop where
  new : ∀ q ∈ c.packets, q.1 ≠ p.decisionPacketId
  opened : p.status = .opened

/-- The loud records of `_request_decision`. -/
def asks (runId : ℕ) (p : DecisionPacket) : List Write :=
  [.on runId (.run (asking p.decisionPacketId) true) false, .on runId (.packet p) false]

theorem says_requestDecision (h : Stands s runId c jobs) {run : Run} (hrev : run.runRevision = c.revision)
    (questions : List Question) :
    Says Write.loud (requestDecision runId run questions) s fun _ l => ∃ p, Asks c p ∧ l = asks runId p := by
  obtain ⟨d, hd, rfl⟩ := h.data
  refine says_bind_ok (rfl : newId s = (.ok (s.ids + 1), [.newId])) ?_
  have h1 : Stands (replay s [Write.newId]) runId d.standing jobs := h.quiet minds_newId
  refine says_bind_ok (rfl : newId _ = (.ok _, [.newId])) ?_
  have h2 : Stands (replay (replay s [Write.newId]) [Write.newId]) runId d.standing jobs := h1.quiet minds_newId
  have hd2 : (replay (replay s [Write.newId]) [Write.newId]).runs.get runId = some d := hd
  refine says_bind_ok (updateRun_eq hd2 (asking (s.ids + 1)) (by rintro e ⟨⟩; exact hrev) true) ?_
  have h3 := h2.on (rfl : (Write.on runId (.run (asking (s.ids + 1)) true) false).drawn _ = true)
  have hd3 := get_on hd2 (.run (asking (s.ids + 1)) true) false
  have hnew : ∀ q ∈ d.packets, q.decisionPacketId ≠ s.ids + 1 := fun q hq => by
    have := (h.drawn runId d hd).2 q hq
    omega
  let p : DecisionPacket := ⟨s.ids + 1, s.ids + 2, 1, .opened, questions⟩
  have hasks : Asks d.standing p := by
    refine ⟨fun q hq => ?_, rfl⟩
    obtain ⟨q', hq', rfl⟩ := List.mem_map.mp hq
    exact hnew q' hq'
  have hpacket : createDecisionPacket runId p _ = (.ok p, [.on runId (.packet p) false]) := insert_eq hd3 _ _ hnew
  refine says_bind_ok hpacket ?_
  have hdrawn : (Write.on runId (.packet p) false).drawn
      (replay (replay (replay s [Write.newId]) [Write.newId]) [Write.on runId (.run (asking (s.ids + 1)) true) false]) :=
    decide_eq_true (Nat.le_succ _)
  have h4 := h3.on hdrawn
  refine says_quiet_bind h4 (minds_emit _ _) (fun e => ⟨p, hasks, rfl⟩) fun _ t _ ht => ?_
  exact says_quiet_bind ht (minds_emit _ _) (fun e => ⟨p, hasks, rfl⟩) fun _ u _ hu => ⟨p, hasks, rfl⟩

/-- How `_execute_profile`, `_execute_resolved_task` and `_execute_training` go on under the lock. -/
inductive Enters (runId : ℕ) (c : Standing) : Entry → Except Fault Turn → List Write → Prop
  | ended (entry : Entry) (h : c.status = .terminal) : Enters runId c entry (.ok (.returns .complete)) []
  | profileFails (columns : List String) (e : Fault) (h : c.status ≠ .terminal) :
      Enters runId c (.profiled columns) (.error e) [.on runId (.run profiling false) false]
  | profileQueues (columns : List String) (result : Worker.CheckpointResult) (h : c.status ≠ .terminal)
      (hready : result.status = .ready) :
      Enters runId c (.profiled columns) (.ok (.returns (.checkpoint result)))
        [.on runId (.run profiling false) false, .on runId (.run planQueued true) false]
  | profileAsks (columns : List String) (r : Except Fault Turn) (p : DecisionPacket) (h : c.status ≠ .terminal)
      (hp : Asks c p) (hr : ∀ turn, r = .ok turn → ∃ result, turn = .returns (.checkpoint result)) :
      Enters runId c (.profiled columns) r (.on runId (.run profiling false) false :: asks runId p)
  | resolves (r : Except Fault Turn) (h : c.status ≠ .terminal)
      (hr : ∀ turn, r = .ok turn → ∃ result, turn = .returns (.checkpoint result) ∧ result.status = .ready) :
      Enters runId c .resolve r [.on runId (.run resolved false) false]
  | paused (result : Worker.CheckpointResult) (h : c.status = .paused) :
      Enters runId c .train (.ok (.returns (.checkpoint result))) []
  | trains (h : c.status ≠ .terminal) (h' : c.status ≠ .paused) :
      Enters runId c .train (.ok (.yields .training)) [.on runId (.run (advanced .plan 42) false) false]
  | asksClass (classes : List Store.Value) (r : Except Fault Turn) (p : DecisionPacket) (hp : Asks c p)
      (hr : ∀ turn, r = .ok turn → ∃ result, turn = .returns (.checkpoint result)) :
      Enters runId c (.positiveClass classes) r (asks runId p)
  | failsClosed (code : String) (e : Fault) (h : c.closed) : Enters runId c (.engineError code) (.error e) []
  | fails (code : String) (result : Result) (events : List Payload) (h : c.closed = false) :
      Enters runId c (.engineError code) (.ok (.returns .complete))
        [.on runId (.finalized result failed events) true]

theorem checkpoint_eq {nextStep : String} (h : nextStep ≠ "") (waiting : Bool) (fields : Store.Fields) (s : World) :
    ∃ result, checkpoint nextStep waiting fields s = (.ok (.returns (.checkpoint result)), []) ∧
      result.status = if waiting then .waiting else .ready := by
  simp only [checkpoint, dif_neg h]
  exact ⟨_, rfl, rfl⟩

theorem says_profiled (h : Stands s runId c jobs) (columns : List String) :
    Says Write.loud (profiled runId columns) s (Enters runId c (.profiled columns)) := by
  obtain ⟨d, hd, rfl⟩ := h.data
  unfold profiled
  simp only [Says, read_bind, hd]
  by_cases hs : d.run.status = .terminal
  · rw [if_pos hs]
    exact .ended _ hs
  rw [if_neg hs]
  have hne : d.standing.status ≠ .terminal := hs
  refine says_bind_ok (updateRun_eq_none hd profiling false) ?_
  have h1 := h.on (rfl : (Write.on runId (.run profiling false) false).drawn s = true)
  refine says_quiet_bind h1 (minds_completeStage _ _) (fun e => .profileFails _ e hne) fun _ t _ ht => ?_
  refine says_quiet_bind ht (minds_emit _ _) (fun e => .profileFails _ e hne) fun _ t _ ht => ?_
  refine says_quiet_bind ht (minds_commitOutput _ _) (fun e => .profileFails _ e hne) fun o t _ ht => ?_
  refine says_quiet_bind ht (minds_updateRun rfl fun _ => rfl) (fun e => .profileFails _ e hne) fun current t _ ht => ?_
  obtain ⟨run', hrun', hagrees⟩ := completeStage_ok ht current .profile
  refine says_quiet_bind_ok ht (minds_completeStage _ _) hrun' fun t ht => ?_
  split
  · obtain ⟨run₃, hrun₃, -⟩ := updateRun_agrees ht planQueued none (by simp) true
    refine says_bind_ok hrun₃ ?_
    obtain ⟨result, hresult, hready⟩ := checkpoint_eq (by decide : "TRAIN" ≠ "") false
      [("profile_output_id", .int o.1.outputId)] (replay t [Write.on runId (.run planQueued true) false])
    unfold Says
    rw [hresult]
    exact .profileQueues _ _ hne hready
  · refine says_bind ((says_requestDecision ht hagrees.revision _).mono ?_)
    rintro r l ⟨p, hp, rfl⟩
    cases r with
    | error e => exact .profileAsks _ _ p hne ⟨hp.new, hp.opened⟩ fun turn h => by cases h
    | ok _ =>
      obtain ⟨result, hresult, -⟩ := checkpoint_eq (by decide : "RESOLVE_TASK" ≠ "") true
        [("profile_output_id", .int o.1.outputId)] (final (requestDecision runId run' (initialQuestions current columns)) t)
      unfold Says
      rw [hresult]
      exact .profileAsks _ _ p hne ⟨hp.new, hp.opened⟩ fun turn h => by cases h; exact ⟨result, rfl⟩

theorem says_resolveTask (h : Stands s runId c jobs) :
    Says Write.loud (resolveTask runId) s (Enters runId c .resolve) := by
  obtain ⟨d, hd, rfl⟩ := h.data
  unfold resolveTask
  simp only [Says, read_bind, hd]
  by_cases hs : d.run.status = .terminal
  · rw [if_pos hs]
    exact .ended _ hs
  rw [if_neg hs]
  refine says_bind_ok (updateRun_eq_none hd resolved false) ?_
  have h1 := h.on (rfl : (Write.on runId (.run resolved false) false).drawn s = true)
  have hend : ∀ t : World, Says Write.loud
      (checkpoint "TRAIN" false [("answers_applied", .bool true)]) t fun r l =>
        Enters runId d.standing .resolve r ([.on runId (.run resolved false) false] ++ l) := fun t => by
    obtain ⟨result, hresult, hready⟩ := checkpoint_eq (by decide : "TRAIN" ≠ "") false
      [("answers_applied", .bool true)] t
    unfold Says
    rw [hresult]
    exact .resolves _ hs fun turn h => by cases h; exact ⟨result, rfl, hready⟩
  cases d.run.pendingCommandId with
  | none => exact hend _
  | some commandId =>
    exact says_quiet_bind h1 (minds_change ⟨fun _ _ _ => rfl, fun _ _ => rfl, fun _ => rfl, fun _ => rfl, rfl⟩)
      (fun e => .resolves _ hs fun turn h => by cases h) fun _ t _ _ => hend t

theorem says_startTraining (h : Stands s runId c jobs) :
    Says Write.loud (startTraining runId) s (Enters runId c .train) := by
  obtain ⟨d, hd, rfl⟩ := h.data
  unfold startTraining
  simp only [Says, read_bind, hd]
  by_cases hs : d.run.status = .terminal
  · rw [if_pos hs]
    exact .ended _ hs
  rw [if_neg hs]
  by_cases hp : d.run.status = .paused
  · rw [if_pos hp]
    obtain ⟨result, hresult, -⟩ := checkpoint_eq (by decide : "TRAIN" ≠ "") true [] s
    rw [hresult]
    exact .paused _ hp
  · rw [if_neg hp]
    exact says_bind_ok (updateRun_eq_none hd (advanced .plan 42) false) (.trains hs hp)

theorem says_positiveClassRequired (h : Stands s runId c jobs) (classes : List Store.Value) :
    Says Write.loud (positiveClassRequired runId classes) s (Enters runId c (.positiveClass classes)) := by
  obtain ⟨d, hd, rfl⟩ := h.data
  refine says_bind_ok (find_eq hd) (says_bind ((says_requestDecision h rfl _).mono ?_))
  rintro r l ⟨p, hp, rfl⟩
  cases r with
  | error e => exact .asksClass _ _ p hp fun turn h => by cases h
  | ok _ =>
    obtain ⟨result, hresult, -⟩ := checkpoint_eq (by decide : "RESOLVE_TASK" ≠ "") true []
      ((requestDecision runId d.run [.positiveClass classes]).final (replay s ([] : List Write)))
    unfold Says
    rw [hresult]
    exact .asksClass _ _ p hp fun turn h => by cases h; exact ⟨result, rfl⟩

/-- A run without a result fails for good, and one with a result stays. -/
theorem says_failRun (h : Stands s runId c jobs) {run : Run} (hrun : run.Agrees c) (code : String) :
    Says Write.loud (failRun runId run code) s fun r l =>
      (c.closed ∧ (∃ e, r = .error e) ∧ l = []) ∨
        (c.closed = false ∧ r = .ok () ∧
          ∃ result events, l = [.on runId (.finalized result failed events) true]) := by
  obtain ⟨o, run', hvalue, hagrees⟩ := ensureOutput_ok h hrun (.of .failureReport run.phase)
  refine says_quiet_bind_ok h (minds_ensureOutput _ _) hvalue fun t ht => ?_
  obtain ⟨d, hd, rfl⟩ := ht.data
  cases hc : d.standing.closed with
  | true =>
    obtain ⟨e, he⟩ := finalizeRunWithResult_closed hd hc none .failed (some code) failed [.failed code]
      (some run'.runRevision)
    exact says_bind_error he (Or.inl ⟨rfl, ⟨e, rfl⟩, rfl⟩)
  | false =>
    have hopen : d.result = none := by simpa [RunData.standing] using hc
    obtain ⟨run'', he⟩ := finalizeRunWithResult_eq hd hopen none .failed (some code) failed [.failed code]
      (some run'.runRevision) (by rintro e ⟨⟩; exact hagrees.revision)
    exact says_bind_ok he (Or.inr ⟨rfl, rfl, _, _, rfl⟩)

theorem says_engineFailed (h : Stands s runId c jobs) (code : String) :
    Says Write.loud (engineFailed runId code) s (Enters runId c (.engineError code)) := by
  obtain ⟨d, hd, rfl⟩ := h.data
  unfold engineFailed
  simp only [Says, read_bind, hd]
  refine says_bind ((says_failRun h (agrees_standing d) code).mono ?_)
  rintro r l (⟨hc, ⟨e, rfl⟩, rfl⟩ | ⟨hc, rfl, result, events, rfl⟩)
  · exact .failsClosed _ _ hc
  · exact .fails _ _ _ hc

end AutomlApi.Workflow
