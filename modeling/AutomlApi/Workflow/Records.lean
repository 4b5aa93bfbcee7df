import AutomlApi.Workflow.Commands
import AutomlApi.Workflow.Standing

/-! Which records a program of one run writes. They are about that run, their new
items have ids that have been drawn, and most programs neither write a loud record
nor touch the artifacts. -/

namespace AutomlApi.Workflow

open Durable
open Jobs (Job Readings)

/-- The record is about this run, or about none. -/
def Write.about (runId : ℕ) : Write → Bool
  | .newId => true
  | .on id _ _ | .put (.artifact id _) => id = runId
  | .job _ (.create _ id _ _ _ _) | .job _ (.wake id) => id = runId
  | .job _ op => op.presents.any (·.runId = runId)
  | _ => false

/-- The output or the packet that the record adds has an id that has been drawn. -/
def Write.drawn (w : World) : Write → Bool
  | .on _ (.output o) _ => o.outputId ≤ w.ids
  | .on _ (.packet p) _ => p.decisionPacketId ≤ w.ids
  | _ => true

/-- A change that leaves the artifacts alone. -/
def Change.plain : Change → Bool
  | .artifact _ | .artifactState .. => false
  | _ => true

/-- A record that leaves artifacts and bytes alone. -/
def Write.plain : Write → Bool
  | .on _ c _ => c.plain
  | .put _ => false
  | _ => true

/-- The progress that a run may have made in a phase. -/
def Phase.levels : Phase → List ℕ
  | ingest => [0]
  | profile => [15]
  | plan => [35, 40, 42]
  | train => [55]
  | evaluate => [80]
  | package => [92, 95, 100]

/-- A new phase comes with a progress that is one of its own, and the last progress with
the success of the run. -/
def RunPatch.paced (p : RunPatch) : Bool :=
  match p.phase, p.progress with
  | none, none => true
  | some phase, some n => n ∈ phase.levels ∧ (n = 100 → p.status = some .terminal ∧ p.outcome = some (some .succeeded))
  | _, _ => false

/-- What a change updates of the run. -/
def Change.patch : Change → RunPatch
  | .run p _ | .mutated p _ | .finalized _ p _ => p
  | _ => {}

def Change.paced (c : Change) : Bool := c.patch.paced

def Write.paced : Write → Bool
  | .on _ c _ => c.paced
  | _ => true

/-- What a program is allowed to write about. -/
structure Scope where
  runId : ℕ
  loud : Bool
  artifacts : Bool

namespace Scope

/-- A record within a scope. -/
structure Allows (sc : Scope) (w : World) (x : Write) : Prop where
  about : x.about sc.runId
  drawn : x.drawn w
  quiet : sc.loud = false → x.loud = false
  plain : sc.artifacts = false → x.plain
  paced : x.paced

/-- A scope that allows more. -/
structure Within (sc sc' : Scope) : Prop where
  runId : sc.runId = sc'.runId
  loud : sc.loud → sc'.loud
  artifacts : sc.artifacts → sc'.artifacts

theorem Allows.mono {sc sc' : Scope} {w : World} {x : Write} (h : sc.Allows w x) (hsc : sc.Within sc') :
    sc'.Allows w x where
  about := hsc.runId ▸ h.about
  drawn := h.drawn
  quiet hl := h.quiet (by cases hs : sc.loud with | false => rfl | true => rw [hsc.loud hs] at hl; cases hl)
  plain ha := h.plain (by cases hs : sc.artifacts with | false => rfl | true => rw [hsc.artifacts hs] at ha; cases ha)
  paced := h.paced

end Scope

/-- The output that a record adds, with its run. -/
def Write.adds : Write → Option (ℕ × ℕ)
  | .on runId (.output o) _ => some (runId, o.outputId)
  | _ => none

/-- The output whose commit a record tells, with its run. -/
def Write.tells : Write → Option (ℕ × ℕ)
  | .on runId (.event (.outputCommitted id) _) _ => some (runId, id)
  | _ => none

/-- Among the records every output is followed by its event. -/
def Covered : List Write → Prop
  | [] => True
  | x :: l => (∀ output ∈ x.adds, ∃ y ∈ l, y.tells = some output) ∧ Covered l

instance Covered.decidable : (l : List Write) → Decidable (Covered l)
  | [] => inferInstanceAs (Decidable True)
  | x :: l =>
    have := Covered.decidable l
    inferInstanceAs (Decidable ((∀ output ∈ x.adds, ∃ y ∈ l, y.tells = some output) ∧ Covered l))

theorem covered_of_bare {l : List Write} (h : ∀ x ∈ l, x.adds = none) : Covered l := by
  induction l with
  | nil => trivial
  | cons x l ih =>
    refine ⟨fun output hout => ?_, ih fun y hy => h y (List.mem_cons_of_mem x hy)⟩
    rw [h x List.mem_cons_self] at hout
    cases hout

theorem Covered.append {l l' : List Write} (h : Covered l) (h' : Covered l') : Covered (l ++ l') := by
  induction l with
  | nil => exact h'
  | cons x l ih =>
    refine ⟨fun output hout => ?_, ih h.2⟩
    obtain ⟨y, hy, ht⟩ := h.1 output hout
    exact ⟨y, List.mem_append_left l' hy, ht⟩

/-- From `s` the program stays within a scope, and tells of every output that it adds. -/
structure MindsAt {α : Type} (sc : Scope) (m : Prog α) (s : World) : Prop where
  writes : Writes sc.Allows m s
  covered : Covered (m s).2

/-- A program that stays within a scope, wherever it starts. -/
def Minds {α : Type} (sc : Scope) (m : Prog α) : Prop := ∀ s, MindsAt sc m s

variable {sc : Scope} {α β : Type} {m : Prog α} {k : α → Prog β} {runId : ℕ}

theorem Minds.mono {sc' : Scope} (h : Minds sc m) (hsc : sc.Within sc') : Minds sc' m :=
  fun s => ⟨(h s).writes.mono fun _ _ hx => hx.mono hsc, (h s).covered⟩

theorem mindsAt_bind {s : World} (hm : MindsAt sc m s)
    (hk : ∀ a, (m s).1 = .ok a → MindsAt sc (k a) (m.final s)) : MindsAt sc (m >>= k) s := by
  refine ⟨writes_bind hm.writes fun a ha => (hk a ha).writes, ?_⟩
  unfold final at hk
  have hc := hm.covered
  rw [bind_eq]
  cases h : m s with
  | mk r l =>
    rw [h] at hc hk
    cases r with
    | error e => exact hc
    | ok a => exact hc.append (hk a rfl).covered

theorem minds_bind (hm : Minds sc m) (hk : ∀ a, Minds sc (k a)) : Minds sc (m >>= k) :=
  fun s => mindsAt_bind (hm s) fun a _ => hk a _

theorem mindsAt_nil {s : World} (h : (m s).2 = []) : MindsAt sc m s := by
  constructor
  · rw [Writes, h]
    trivial
  · rw [h]
    exact covered_of_bare fun x hx => absurd hx List.not_mem_nil

theorem mindsAt_write {s : World} {x : Write} (h : sc.Allows s x) (hx : x.adds = none) : MindsAt sc (write x) s :=
  ⟨writes_write h, covered_of_bare fun _ hy => List.mem_singleton.mp hy ▸ hx⟩

theorem minds_pure (a : α) : Minds sc (pure a : Prog α) := fun _ => mindsAt_nil rfl

theorem minds_raise (f : Fault) : Minds sc (raise f : Prog α) := fun _ => mindsAt_nil rfl

theorem minds_check (r : Except Fault α) : Minds sc (check r : Prog α) := fun _ => mindsAt_nil rfl

theorem minds_read : Minds sc (read : Prog World) := fun _ => mindsAt_nil rfl

/-- What follows a read may be looked at in the state that was read. -/
theorem minds_read_bind {k : World → Prog β} (hk : ∀ w, Minds sc (k w)) : Minds sc (read >>= k) :=
  minds_bind minds_read hk

theorem minds_newId : Minds sc newId :=
  minds_read_bind fun _ => minds_bind (fun _ => mindsAt_write ⟨rfl, rfl, fun _ => rfl, fun _ => rfl, rfl⟩ rfl) fun _ =>
    minds_pure _

theorem find_writes (s : World) : (find runId s).2 = [] := by
  unfold find
  rw [read_bind]
  cases s.runs.get runId <;> rfl

theorem minds_find : Minds sc (find runId) := by
  refine minds_read_bind fun w => ?_
  cases w.runs.get runId with
  | some d => exact minds_pure d
  | none => exact minds_raise _

/-- A change within a scope, which adds neither an output nor a packet. -/
structure Change.Fits (sc : Scope) (c : Change) : Prop where
  drawn : ∀ w id drawsId, (Write.on id c drawsId).drawn w
  bare : ∀ id drawsId, (Write.on id c drawsId).adds = none
  quiet : sc.loud = false → c.loud = false
  plain : sc.artifacts = false → c.plain
  paced : c.paced

theorem minds_change {c : Change} (h : c.Fits sc) : Minds sc (change sc.runId c) :=
  minds_bind minds_find fun _ =>
    minds_bind (fun s => mindsAt_write ⟨by simp [Write.about], h.drawn s _ _, h.quiet, h.plain, h.paced⟩ (h.bare _ _)) fun _ =>
      minds_pure _

theorem minds_changeWithId {c : ℕ → Change} (h : ∀ id, (c id).Fits sc) : Minds sc (changeWithId sc.runId c) :=
  minds_bind minds_find fun _ => minds_read_bind fun _ =>
    minds_bind (fun s => mindsAt_write ⟨by simp [Write.about], (h _).drawn s _ _, (h _).quiet, (h _).plain, (h _).paced⟩
      ((h _).bare _ _)) fun _ => minds_pure _

theorem minds_updateRun {p : RunPatch} {expected : Option ℕ} {bump : Bool} (hpaced : p.paced)
    (h : sc.loud = false → (p.loud || bump) = false) : Minds sc (updateRun sc.runId p expected bump) :=
  minds_bind minds_find fun _ => minds_bind (minds_check _) fun _ =>
    minds_bind (minds_change ⟨fun _ _ _ => rfl, fun _ _ => rfl, h, fun _ => rfl, hpaced⟩) fun _ => minds_pure _

theorem minds_emit (run : Run) (payload : Payload) : Minds sc (emit sc.runId run payload) :=
  minds_bind minds_newId fun _ =>
    minds_bind (minds_bind (minds_change ⟨fun _ _ _ => rfl, fun _ _ => rfl, fun _ => rfl, fun _ => rfl, rfl⟩) fun _ => minds_pure _) fun _ =>
      minds_updateRun rfl fun _ => rfl

theorem minds_completeStage (run : Run) (phase : Phase) : Minds sc (completeStage sc.runId run phase) := by
  refine minds_bind minds_find fun d => ?_
  split
  · exact minds_pure _
  · exact minds_emit run _

theorem insert_records (s : World) (runId : ℕ) {ι : Type} (resource : String) (items : RunData → List ι) (key : ι → ℕ)
    (wrap : ι → Change) (item : ι) : (∃ e, insert runId resource items key wrap item s = (.error e, [])) ∨
      ((s.runs.get runId).isSome ∧ insert runId resource items key wrap item s = (.ok item, [.on runId (wrap item) false])) := by
  cases hd : s.runs.get runId with
  | none =>
    have hfind : find runId s = (.error (.notFound "run" runId), []) := by
      unfold find
      rw [read_bind, hd]
      rfl
    left
    simp only [insert, bind_eq, hfind]
    exact ⟨_, rfl⟩
  | some d =>
    rcases insert_cases (by rw [hd]; rfl) resource items key wrap item with ⟨e, h⟩ | h
    · exact .inl ⟨e, h⟩
    · exact .inr ⟨rfl, h⟩

/-- A new item that is fit where it is inserted. -/
theorem writes_insert {ι : Type} {resource : String} {items : RunData → List ι} {key : ι → ℕ}
    {wrap : ι → Change} {item : ι} {s : World} (hdrawn : (Write.on sc.runId (wrap item) false).drawn s)
    (hquiet : sc.loud = false → (wrap item).loud = false) (hplain : sc.artifacts = false → (wrap item).plain)
    (hpaced : (wrap item).paced) :
    Writes sc.Allows (insert sc.runId resource items key wrap item) s := by
  unfold Writes
  rcases insert_records s sc.runId resource items key wrap item with ⟨e, h⟩ | ⟨-, h⟩
  · rw [h]
    trivial
  · rw [h]
    exact ⟨⟨by simp [Write.about], hdrawn, hquiet, hplain, hpaced⟩, trivial⟩

theorem mindsAt_insert {ι : Type} {resource : String} {items : RunData → List ι} {key : ι → ℕ}
    {wrap : ι → Change} {item : ι} {s : World} (hdrawn : (Write.on sc.runId (wrap item) false).drawn s)
    (hbare : (Write.on sc.runId (wrap item) false).adds = none)
    (hquiet : sc.loud = false → (wrap item).loud = false) (hplain : sc.artifacts = false → (wrap item).plain)
    (hpaced : (wrap item).paced) :
    MindsAt sc (insert sc.runId resource items key wrap item) s := by
  refine ⟨writes_insert hdrawn hquiet hplain hpaced, covered_of_bare fun x hx => ?_⟩
  rcases insert_records s sc.runId resource items key wrap item with ⟨e, h⟩ | ⟨-, h⟩
  · rw [h] at hx
    exact absurd hx List.not_mem_nil
  · rw [h] at hx
    exact List.mem_singleton.mp hx ▸ hbare

theorem ids_le_apply (w : World) (x : Write) : w.ids ≤ (w.apply x).ids := by
  cases x with
  | on runId c drawsId => cases drawsId <;> simp [World.apply]
  | _ => simp [World.apply]

/-- Ids are never given back. -/
theorem ids_le_final (m : Prog α) (s : World) : s.ids ≤ (m.final s).ids :=
  replay_keeps (P := fun t : World => s.ids ≤ t.ids) (fun t x _ h => h.trans (ids_le_apply t x)) le_rfl

theorem writes_createOutput {o : Output} {s : World} (h : o.outputId ≤ s.ids) :
    Writes sc.Allows (createOutput sc.runId o) s :=
  writes_insert (by simpa [Write.drawn] using h) (fun _ => rfl) (fun _ => rfl) rfl

/-- The ids that a program draws are drawn where it goes on. -/
theorem mindsAt_newId_bind {k : ℕ → Prog β} {s : World}
    (hk : ∀ t : World, t.ids = s.ids + 1 → MindsAt sc (k (s.ids + 1)) t) : MindsAt sc (newId >>= k) s := by
  refine mindsAt_bind (minds_newId s) fun a ha => ?_
  cases ha
  exact hk _ rfl

theorem get_on {d : RunData} {s : World} (hd : s.runs.get runId = some d) (c : Change) (drawsId : Bool) :
    (replay s [Write.on runId c drawsId]).runs.get runId = some (d.apply c) := by
  show (modifyKey s.runs runId fun d => d.apply c).get runId = _
  rw [get_modifyKey, if_pos rfl, hd]
  rfl

/-- Where the run is there, its event is written. -/
theorem emit_eq {d : RunData} {s : World} (hd : s.runs.get runId = some d) (run : Run) (payload : Payload) :
    emit runId run payload s = (.ok ((d.append payload run.runRevision).run.update {} false),
      [.newId, .on runId (.event payload run.runRevision) false, .on runId (.run {} false) false]) := by
  have hnew : newId s = (.ok (s.ids + 1), [.newId]) := rfl
  have hd₁ : (replay s [Write.newId]).runs.get runId = some d := hd
  have hd₂ := get_on hd₁ (.event payload run.runRevision) false
  simp only [emit, appendEvent, bind_eq, hnew, change_eq hd₁, pure_eq, updateRun_eq_none hd₂, List.append_nil]
  rfl

theorem emit_final {d : RunData} {s : World} (hd : s.runs.get runId = some d) (run : Run) (payload : Payload) :
    ((emit runId run payload).final s).runs.get runId = some ((d.append payload run.runRevision).apply (.run {} false)) := by
  have hd₁ : (replay s [Write.newId]).runs.get runId = some d := hd
  have hd₂ := get_on (get_on hd₁ (.event payload run.runRevision) false) (.run {} false) false
  unfold final
  rw [emit_eq hd]
  exact hd₂

theorem minds_commitOutput (run : Run) (o : Output) : Minds sc (commitOutput sc.runId run o) := by
  refine fun s => mindsAt_newId_bind fun t ht => ?_
  have hrest : ∀ o' : Output, Minds sc (do
      let _ ← emit sc.runId run (.outputCommitted (s.ids + 1))
      let run ← updateRun sc.runId {} none false
      pure (o', run)) := fun o' =>
    minds_bind (minds_emit run _) fun _ => minds_bind (minds_updateRun rfl fun _ => rfl) fun _ => minds_pure _
  let new : Output := { o with outputId := s.ids + 1, runRevision := run.runRevision, createdSeq := run.snapshotSeq + 1 }
  have hcreate : Writes sc.Allows (createOutput sc.runId new) t := writes_createOutput ht.ge
  have hwrites := writes_bind hcreate fun o' _ => (hrest o' _).writes
  refine ⟨hwrites, ?_⟩
  rcases insert_records t sc.runId "output" RunData.outputs Output.outputId .output new with ⟨e, h⟩ | ⟨hd, h⟩
  · rw [bind_eq, show createOutput sc.runId new t = _ from h]
    exact covered_of_bare fun x hx => absurd hx List.not_mem_nil
  · -- the run is still there after the output, so that the event follows
    rw [bind_eq, show createOutput sc.runId new t = _ from h]
    refine ⟨fun output hout => ?_, (hrest new _).covered⟩
    cases hout
    refine ⟨.on sc.runId (.event (.outputCommitted (s.ids + 1)) run.runRevision) false, List.mem_append_right [] ?_, rfl⟩
    obtain ⟨d, hd⟩ := Option.isSome_iff_exists.mp hd
    rw [bind_eq, emit_eq (get_on hd (.output new) false)]
    exact List.mem_append_left _ (List.mem_cons_of_mem _ List.mem_cons_self)

theorem minds_outputForType (type : OutputType) (trialNumber : Option ℕ) :
    Minds sc (outputForType runId type trialNumber) := minds_bind minds_find fun _ => minds_pure _

theorem minds_ensureOutput (run : Run) (o : Output) : Minds sc (ensureOutput sc.runId run o) := by
  refine minds_bind (minds_outputForType _ _) fun existing => ?_
  cases existing with
  | some existing => exact minds_pure _
  | none => exact minds_commitOutput run o

/-! ### Stages and artifacts -/

theorem minds_transitionRunningPhase (hl : sc.loud) (run : Run) {phase : Phase} {progress : ℕ}
    (hpaced : (advanced phase progress).paced) :
    Minds sc (transitionRunningPhase sc.runId run phase progress) := by
  unfold transitionRunningPhase
  have hrest : ∀ updated : Run, Minds sc (do
      let d ← find sc.runId
      if d.events.any (·.payload = .phaseChanged phase .running) then pure updated
      else emit sc.runId updated (.phaseChanged phase .running)) := fun updated => by
    refine minds_bind minds_find fun d => ?_
    split
    · exact minds_pure _
    · exact minds_emit updated _
  split
  · exact minds_bind (minds_pure _) hrest
  · exact minds_bind (minds_updateRun hpaced fun h => by simp [hl] at h) hrest

theorem minds_requestArtifact (kind mediaType sha256 : String) :
    Minds sc (requestArtifact sc.runId kind mediaType sha256) := by
  refine minds_bind minds_find fun d => ?_
  dsimp only
  split
  · exact minds_pure _
  · exact minds_bind minds_newId fun _ => minds_pure _

theorem minds_artifactStored (ha : sc.artifacts) (p : PendingArtifact) : Minds sc (artifactStored sc.runId p) :=
  minds_bind
    (fun _ => mindsAt_write ⟨by simp [Write.about], rfl, fun _ => rfl, fun h => by simp [ha] at h, rfl⟩ rfl)
    fun _ _ => mindsAt_insert rfl rfl (fun _ => rfl) (fun h => by simp [ha] at h) rfl

theorem minds_linkArtifact (outputId : ℕ) (artifact : Artifact) :
    Minds sc (linkArtifact sc.runId outputId artifact) :=
  minds_bind (minds_change ⟨fun _ _ _ => rfl, fun _ _ => rfl, fun _ => rfl, fun _ => rfl, rfl⟩) fun _ => minds_pure _

theorem minds_linkArtifacts (outputId : ℕ) (artifacts : List Artifact) :
    Minds sc (linkArtifacts sc.runId outputId artifacts) := by
  induction artifacts with
  | nil => exact minds_pure _
  | cons artifact rest ih => exact minds_bind (minds_linkArtifact outputId artifact) fun _ => ih

theorem minds_finishPlan (hl : sc.loud) (run : Run) (splitOutput : Output) :
    Minds sc (finishPlan sc.runId run splitOutput) :=
  minds_bind (minds_updateRun rfl fun h => by simp [hl] at h) fun _ => minds_bind (minds_completeStage _ _) fun _ =>
    minds_bind (minds_transitionRunningPhase hl _ rfl) fun _ => minds_pure _

theorem minds_splitStored (hl : sc.loud) (run : Run) (artifact : Artifact) :
    Minds sc (splitStored sc.runId run artifact) :=
  minds_bind (minds_commitOutput _ _) fun _ => minds_bind (minds_linkArtifact _ _) fun _ => minds_finishPlan hl _ _

theorem minds_publishPlan (hl : sc.loud) (run : Run) (splitSha256 : String) :
    Minds sc (publishPlan sc.runId run splitSha256) := by
  refine minds_bind minds_find fun d => ?_
  split
  · exact minds_bind (minds_transitionRunningPhase hl _ rfl) fun _ => minds_pure _
  · refine minds_bind (minds_ensureOutput _ _) fun _ => minds_bind (minds_updateRun rfl fun h => by simp [hl] at h) fun run =>
      minds_bind (minds_outputForType _ _) fun splitOutput => ?_
    cases splitOutput with
    | some splitOutput => exact minds_bind (minds_finishPlan hl _ _) fun _ => minds_pure _
    | none =>
      refine minds_bind (minds_requestArtifact _ _ _) fun artifact => ?_
      cases artifact with
      | inl artifact => exact minds_bind (minds_splitStored hl _ _) fun _ => minds_pure _
      | inr artifact => exact minds_pure _

theorem minds_publishTrials (run : Run) (trialNumbers : List ℕ) :
    Minds sc (publishTrials sc.runId run trialNumbers) := by
  induction trialNumbers generalizing run with
  | nil => exact minds_pure _
  | cons trialNumber rest ih => exact minds_bind (minds_ensureOutput _ _) fun _ => ih _

theorem minds_publishTrain (hl : sc.loud) (run : Run) (trialNumbers : List ℕ) :
    Minds sc (publishTrain sc.runId run trialNumbers) := by
  refine minds_bind minds_find fun d => ?_
  have hrest : ∀ run : Run, Minds sc (do
      let _ ← transitionRunningPhase sc.runId run .evaluate 80
      pure ()) := fun run => minds_bind (minds_transitionRunningPhase hl _ rfl) fun _ => minds_pure _
  split
  · exact minds_bind (minds_pure _) hrest
  · exact minds_bind (minds_ensureOutput _ _) fun _ => minds_bind (minds_publishTrials _ _) fun _ =>
      minds_bind (minds_completeStage _ _) hrest

theorem minds_publishStage (hl : sc.loud) (call : StageCall) : Minds sc (publishStage sc.runId call) := by
  refine minds_bind minds_find fun d => ?_
  split
  · exact minds_pure _
  · cases call with
    | plan splitSha256 => exact minds_publishPlan hl _ _
    | train trialNumbers => exact minds_bind (minds_publishTrain hl _ _) fun _ => minds_pure _

theorem minds_resumeStage (hl : sc.loud) (pending : PendingSplit) (stored : Bool) (ha : stored → sc.artifacts) :
    Minds sc (resumeStage sc.runId pending stored) := by
  cases stored with
  | false => exact minds_raise _
  | true => exact minds_bind (minds_artifactStored (ha rfl) _) fun _ => minds_splitStored hl _ _

/-! ### The final result -/

section Result

variable {r : Readings} {result : TrainingResult}

theorem minds_conclude (hl : sc.loud) (run : Run) (modelId : ℕ) :
    Minds sc (conclude r sc.runId run result modelId) := by
  have hloud : ∀ {P : Prop}, sc.loud = false → P := fun h => by simp [hl] at h
  unfold conclude
  split
  · refine minds_bind minds_find fun d => ?_
    have hrest : ∀ approvalId, Minds sc (do
        let _ ← mutateRunWithEvent sc.runId (awaitingApproval approvalId modelId) (.approvalRequested approvalId)
          (some run.runRevision)
        pure (none : Option PendingResult)) := fun approvalId =>
      minds_bind (minds_bind minds_find fun _ => minds_bind (minds_check _) fun _ =>
        minds_bind (minds_change ⟨fun _ _ _ => rfl, fun _ _ => rfl, hloud, fun _ => rfl, rfl⟩) fun _ => minds_pure _) fun _ =>
          minds_pure _
    split
    · exact minds_bind (minds_pure _) hrest
    · exact minds_bind minds_newId fun _ =>
        minds_bind (fun _ => mindsAt_insert rfl rfl hloud (fun _ => rfl) rfl) fun _ => hrest _
  · refine minds_bind (minds_bind minds_find fun d => minds_bind (minds_check _) fun _ => ?_) fun _ => minds_pure _
    split
    · exact minds_raise _
    · exact minds_bind (minds_changeWithId fun _ => ⟨fun _ _ _ => rfl, fun _ _ => rfl, hloud, fun _ => rfl, rfl⟩) fun _ => minds_pure _

theorem minds_reportStored (hl : sc.loud) (run : Run) (modelId : ℕ) (artifact : Artifact) :
    Minds sc (reportStored r sc.runId run result modelId artifact) :=
  minds_bind (minds_commitOutput _ _) fun _ => minds_bind (minds_linkArtifact _ _) fun _ => minds_conclude hl _ _

theorem minds_publishReport (hl : sc.loud) (run : Run) (records : List (Option ℕ)) (modelId : ℕ) :
    Minds sc (publishReport r sc.runId run result records modelId) := by
  refine minds_bind (minds_outputForType _ _) fun report => ?_
  cases report with
  | some report => exact minds_conclude hl _ _
  | none =>
    refine minds_bind (minds_requestArtifact _ _ _) fun artifact => ?_
    cases artifact with
    | inl artifact => exact minds_reportStored hl _ _ _
    | inr artifact => exact minds_pure _

theorem minds_modelStored (hl : sc.loud) (run : Run) (records : List (Option ℕ)) (artifact : Artifact) :
    Minds sc (modelStored r sc.runId run result records artifact) :=
  minds_bind minds_newId fun _ => minds_bind (minds_commitOutput _ _) fun _ =>
    minds_bind (minds_linkArtifact _ _) fun _ => minds_publishReport hl _ _ _

theorem minds_publishModel (hl : sc.loud) (run : Run) (records : List (Option ℕ)) :
    Minds sc (publishModel r sc.runId run result records) := by
  refine minds_bind (minds_completeStage _ _) fun _ => minds_bind (minds_transitionRunningPhase hl _ rfl) fun _ =>
    minds_bind (minds_outputForType _ _) fun card => ?_
  cases card with
  | some card =>
    dsimp only
    cases card.modelId with
    | some modelId => exact minds_publishReport hl _ _ _
    | none => exact minds_raise _
  | none =>
    refine minds_bind (minds_requestArtifact _ _ _) fun artifact => ?_
    cases artifact with
    | inl artifact => exact minds_modelStored hl _ _ _
    | inr artifact => exact minds_pure _

theorem minds_commitEvaluation (hl : sc.loud) (run : Run) (artifacts : List Artifact) (records : List (Option ℕ)) :
    Minds sc (commitEvaluation r sc.runId run result artifacts records) :=
  minds_bind (minds_commitOutput _ _) fun _ => minds_bind (minds_linkArtifacts _ _) fun _ => minds_publishModel hl _ _

theorem minds_publishVisualizations (hl : sc.loud) (run : Run) (visualizations : List Visualization)
    (artifacts : List Artifact) (records : List (Option ℕ)) :
    Minds sc (publishVisualizations r sc.runId run result visualizations artifacts records) := by
  induction visualizations generalizing artifacts records with
  | nil => exact minds_commitEvaluation hl _ _ _
  | cons v rest ih =>
    unfold publishVisualizations
    cases v.content with
    | none => exact ih _ _
    | some sha256 =>
      refine minds_bind (minds_requestArtifact _ _ _) fun artifact => ?_
      cases artifact with
      | inl artifact => exact ih _ _
      | inr artifact => exact minds_pure _

theorem minds_publishResult (hl : sc.loud) (run : Run) : Minds sc (publishResult r sc.runId run result) := by
  refine minds_bind (minds_outputForType _ _) fun taskSpec => minds_bind (minds_outputForType _ _) fun split => ?_
  cases taskSpec with
  | none => exact minds_raise _
  | some taskSpec =>
    cases split with
    | none => exact minds_raise _
    | some split =>
      refine minds_bind (minds_outputForType _ _) fun report => ?_
      cases report with
      | none => exact minds_publishVisualizations hl _ _ _ _
      | some report => exact minds_publishModel hl _ _

theorem minds_resumeResult (hl : sc.loud) (p : PendingResult) (stored : Bool) (ha : stored → sc.artifacts) :
    Minds sc (resumeResult r sc.runId p stored) := by
  unfold resumeResult
  cases stored with
  | true =>
    refine minds_bind (minds_artifactStored (ha rfl) _) fun artifact => ?_
    cases p.site with
    | visualization rest artifacts records => exact minds_publishVisualizations hl _ _ _ _
    | model records => exact minds_modelStored hl _ _ _
    | report modelId => exact minds_reportStored hl _ _ _
  | false =>
    cases p.site with
    | visualization rest artifacts records => exact minds_publishVisualizations hl _ _ _ _
    | model records => exact minds_raise _
    | report modelId => exact minds_raise _

end Result

/-! ### The steps of the worker -/

theorem minds_checkpoint (nextStep : String) (waiting : Bool) (fields : Store.Fields) :
    Minds sc (checkpoint nextStep waiting fields) := by
  unfold checkpoint
  split
  · exact minds_raise _
  · exact minds_pure _

theorem minds_complete : Minds sc complete := minds_pure _

theorem minds_datasetPath (run : Run) : Minds sc (datasetPath run) := by
  refine minds_read_bind fun w => ?_
  cases w.versions.get run.datasetVersionId with
  | none => exact minds_raise _
  | some version =>
    dsimp only
    split
    · exact minds_raise _
    · split
      · exact minds_pure _
      · exact minds_raise _

theorem minds_startHandler (job : Job ℕ) : Minds sc (startHandler job) := by
  refine minds_read_bind fun w => ?_
  cases w.runs.get job.runId with
  | none => exact minds_complete
  | some d =>
    have hstep : Minds sc (
        if job.workflowStep = "PROFILE" then do
          datasetPath d.run
          pure (Turn.yields .profiling)
        else if job.workflowStep = "RESOLVE_TASK" then pure (Turn.yields (.queueing .resolve))
        else if job.workflowStep = "TRAIN" then do
          datasetPath d.run
          pure (Turn.yields (.queueing .train))
        else raise (.runtime "RuntimeError")) := by
      split
      · exact minds_bind (minds_datasetPath _) fun _ => minds_pure _
      · split
        · exact minds_pure _
        · split
          · exact minds_bind (minds_datasetPath _) fun _ => minds_pure _
          · exact minds_raise _
    dsimp only
    cases d.run.status with
    | terminal | waitingApproval => exact minds_complete
    | paused | waitingUser => exact minds_checkpoint _ _ _
    | queued | running => exact hstep

theorem minds_requestDecision (hl : sc.loud) (run : Run) (questions : List Question) :
    Minds sc (requestDecision sc.runId run questions) := fun s =>
  mindsAt_newId_bind fun _ ht => mindsAt_newId_bind fun _ hu =>
    mindsAt_bind (minds_updateRun rfl (fun h => by simp [hl] at h) _) fun _ _ =>
      mindsAt_bind
        (mindsAt_insert
          (decide_eq_true ((ht.ge.trans ((Nat.le_succ _).trans hu.ge)).trans (ids_le_final _ _)))
          rfl (fun h => by simp [hl] at h) (fun _ => rfl) rfl)
        fun _ _ => minds_bind (minds_emit _ _) (fun _ => minds_bind (minds_emit _ _) fun _ => minds_pure _) _

theorem minds_profiled (hl : sc.loud) (columns : List String) : Minds sc (profiled sc.runId columns) := by
  refine minds_read_bind fun w => ?_
  have hloud : ∀ {P : Prop}, sc.loud = false → P := fun h => by simp [hl] at h
  cases w.runs.get sc.runId with
  | none => exact minds_complete
  | some d =>
    dsimp only
    split
    · exact minds_complete
    · refine minds_bind (minds_updateRun rfl hloud) fun _ => minds_bind (minds_completeStage _ _) fun _ =>
        minds_bind (minds_emit _ _) fun _ => minds_bind (minds_commitOutput _ _) fun _ =>
          minds_bind (minds_updateRun rfl hloud) fun _ => minds_bind (minds_completeStage _ _) fun _ => ?_
      split
      · exact minds_bind (minds_updateRun rfl hloud) fun _ => minds_checkpoint _ _ _
      · exact minds_bind (minds_requestDecision hl _ _) fun _ => minds_checkpoint _ _ _

theorem minds_resolveTask (hl : sc.loud) : Minds sc (resolveTask sc.runId) := by
  refine minds_read_bind fun w => ?_
  cases w.runs.get sc.runId with
  | none => exact minds_complete
  | some d =>
    dsimp only
    split
    · exact minds_complete
    · refine minds_bind (minds_updateRun rfl fun h => by simp [hl] at h) fun current => ?_
      cases d.run.pendingCommandId with
      | none => exact minds_checkpoint _ _ _
      | some commandId =>
        exact minds_bind (minds_change ⟨fun _ _ _ => rfl, fun _ _ => rfl, fun _ => rfl, fun _ => rfl, rfl⟩) fun _ =>
          minds_checkpoint _ _ _

theorem minds_startTraining (hl : sc.loud) : Minds sc (startTraining sc.runId) := by
  refine minds_read_bind fun w => ?_
  cases w.runs.get sc.runId with
  | none => exact minds_complete
  | some d =>
    dsimp only
    split
    · exact minds_complete
    · split
      · exact minds_checkpoint _ _ _
      · exact minds_bind (minds_updateRun rfl fun h => by simp [hl] at h) fun _ => minds_pure _

theorem minds_finalizeRunWithResult (hl : sc.loud) (resultManifestId : Option ℕ) (outcome : Outcome)
    (code : Option String) {p : RunPatch} (hpaced : p.paced) (events : List Payload) (expected : Option ℕ) :
    Minds sc (finalizeRunWithResult sc.runId resultManifestId outcome code p events expected) := by
  refine minds_bind minds_find fun d => minds_bind (minds_check _) fun _ => ?_
  split
  · exact minds_raise _
  · exact minds_bind (minds_changeWithId fun _ => ⟨fun _ _ _ => rfl, fun _ _ => rfl, fun h => by simp [hl] at h, fun _ => rfl, hpaced⟩)
      fun _ => minds_pure _

theorem minds_failRun (hl : sc.loud) (run : Run) (code : String) : Minds sc (failRun sc.runId run code) :=
  minds_bind (minds_ensureOutput _ _) fun _ => minds_bind (minds_finalizeRunWithResult hl _ _ _ rfl _ _) fun _ =>
    minds_pure _

theorem minds_engineFailed (hl : sc.loud) (code : String) : Minds sc (engineFailed sc.runId code) := by
  refine minds_read_bind fun w => ?_
  cases w.runs.get sc.runId with
  | none => exact minds_complete
  | some d => exact minds_bind (minds_failRun hl _ _) fun _ => minds_complete

theorem minds_published (pending : Option PendingResult) : Minds sc (published pending) := by
  cases pending <;> exact minds_pure _

/-- An operation on the row of the run. -/
theorem minds_onJobs (hl : sc.loud) (r : Readings) {op : Jobs.Op ℕ} (hop : (Write.job r op).about sc.runId) :
    Minds sc (onJobs r op) := by
  refine minds_read_bind fun w => ?_
  cases (op.apply w.jobs r).2 with
  | error fault => exact minds_raise _
  | ok reply =>
    exact minds_bind (fun _ => mindsAt_write ⟨hop, rfl, fun h => by simp [hl] at h, fun _ => rfl, rfl⟩ rfl) fun _ =>
      minds_pure _

variable {w : Worker.LocalExecutionWorker} {r : Readings} {job : Job ℕ}

theorem minds_trained (hl : sc.loud) (hjob : job.runId = sc.runId) (result : TrainingResult) :
    Minds sc (trained w r job result) := by
  unfold trained
  rw [hjob]
  refine minds_bind (minds_onJobs hl r (by simp [Write.about, Jobs.Op.presents, Jobs.Job.claim, hjob])) fun _ =>
    minds_read_bind fun world => ?_
  cases world.runs.get sc.runId with
  | none => exact minds_complete
  | some d =>
    dsimp only
    split
    · exact minds_complete
    · split
      · exact minds_checkpoint _ _ _
      · exact minds_bind (minds_publishResult hl _) fun _ => minds_published _

/-- The handler is only about the run of its job, and never makes an artifact before it waits for one. -/
theorem minds_enter (hl : sc.loud) (hjob : job.runId = sc.runId) (entry : Entry) : Minds sc (enter w r job entry) := by
  cases entry with
  | profiled columns => rw [enter, hjob]; exact minds_profiled hl columns
  | resolve => rw [enter, hjob]; exact minds_resolveTask hl
  | train => rw [enter, hjob]; exact minds_startTraining hl
  | positiveClass classes =>
    rw [enter, hjob]
    exact minds_bind minds_find fun _ => minds_bind (minds_requestDecision hl _ _) fun _ => minds_checkpoint _ _ _
  | engineError code => rw [enter, hjob]; exact minds_engineFailed hl code
  | trained result => exact minds_trained hl hjob result

theorem minds_handleDeadJob (hl : sc.loud) : Minds sc (handleDeadJob sc.runId) := by
  refine minds_read_bind fun w => ?_
  cases w.runs.get sc.runId with
  | none => exact minds_pure _
  | some d =>
    dsimp only
    split
    · exact minds_pure _
    · exact minds_failRun hl _ _

theorem minds_retryJob (hl : sc.loud) (hjob : job.runId = sc.runId) (delay : ℚ) (error : String) :
    Minds sc (retryJob r job delay error) := by
  refine minds_bind (minds_onJobs hl r (by simp [Write.about, Jobs.Op.presents, Jobs.Job.claim, hjob])) fun updated => ?_
  cases updated with
  | none => exact minds_pure _
  | some updated =>
    dsimp only
    split
    · exact hjob ▸ minds_handleDeadJob hl
    · exact minds_pure _

theorem minds_settle (hl : sc.loud) (hjob : job.runId = sc.runId) (outcome : Worker.Outcome) :
    Minds sc (settle w r job outcome) := by
  have habout : ∀ op : Jobs.Op ℕ, op.presents = some job.claim → (Write.job r op).about sc.runId := fun op h => by
    cases op <;> simp_all [Write.about, Jobs.Op.presents, Jobs.Job.claim]
  cases outcome with
  | complete => exact minds_bind (minds_onJobs hl r (habout _ rfl)) fun _ => minds_pure _
  | checkpoint result => exact minds_bind (minds_onJobs hl r (habout _ rfl)) fun _ => minds_pure _
  | raised error => exact minds_retryJob hl hjob _ _
  | fenceRaised => exact minds_raise _
  | cancelled => exact minds_retryJob hl hjob _ _

/-! ### Requests -/

theorem minds_ownedRun (tenantId : String) : Minds sc (ownedRun tenantId runId) :=
  minds_read_bind fun _ => minds_check _

theorem minds_createCommand (type : CommandType) (status : CommandStatus) :
    Minds sc (createCommand sc.runId type status) :=
  minds_bind (minds_changeWithId fun _ => ⟨fun _ _ _ => rfl, fun _ _ => rfl, fun _ => rfl, fun _ => rfl, rfl⟩) fun _ => minds_pure _

theorem minds_answer (hl : sc.loud) (tenantId : String) (request : AnswerRequest) :
    Minds sc (answer r tenantId sc.runId request) := by
  have hloud : ∀ {P : Prop}, sc.loud = false → P := fun h => by simp [hl] at h
  refine minds_bind (minds_ownedRun _) fun d => ?_
  split
  · exact minds_raise _
  · exact minds_bind (minds_check _) fun _ => minds_bind (minds_check _) fun _ => minds_bind (minds_check _) fun _ =>
      minds_bind (minds_check _) fun _ => minds_bind (minds_check _) fun _ => minds_bind (minds_check _) fun _ =>
        minds_bind (minds_createCommand _ _) fun _ =>
          minds_bind (minds_change ⟨fun _ _ _ => rfl, fun _ _ => rfl, hloud, fun _ => rfl, rfl⟩) fun _ =>
            minds_bind (minds_updateRun rfl hloud) fun _ =>
              minds_bind (minds_onJobs hl r (by simp [Write.about])) fun _ => minds_pure _

theorem minds_supersedePackets (hl : sc.loud) (packets : List DecisionPacket) :
    Minds sc (supersedePackets sc.runId packets) := by
  induction packets with
  | nil => exact minds_pure _
  | cons p rest ih =>
    unfold supersedePackets
    split
    · exact minds_bind (minds_change ⟨fun _ _ _ => rfl, fun _ _ => rfl, fun h => by simp [hl] at h, fun _ => rfl, rfl⟩) fun _ => ih
    · exact ih

theorem minds_switchStatus (hl : sc.loud) (run : Run) (status : RunStatus) (actions : List CommandType) :
    Minds sc (switchStatus sc.runId run status actions) :=
  minds_bind (minds_updateRun rfl fun h => by simp [hl] at h) fun _ => minds_emit _ _

theorem minds_controlAct (hl : sc.loud) (d : RunData) (c : Control) : Minds sc (c.act sc.runId d) := by
  cases c with
  | pause => exact minds_switchStatus hl _ _ _
  | resume =>
    simp only [Control.act]
    split <;> exact minds_switchStatus hl _ _ _
  | cancel =>
    exact minds_bind (minds_supersedePackets hl _) fun _ => minds_bind minds_newId fun _ =>
      minds_finalizeRunWithResult hl _ _ _ rfl _ _

theorem minds_control (hl : sc.loud) (tenantId : String) (c : Control) (revision : Option ℕ) :
    Minds sc (control r tenantId sc.runId c revision) := by
  refine minds_bind (minds_ownedRun _) fun d => minds_bind (minds_check _) fun _ =>
    minds_bind (minds_createCommand _ _) fun _ => minds_bind (minds_controlAct hl _ _) fun _ =>
      minds_bind (minds_change ⟨fun _ _ _ => rfl, fun _ _ => rfl, fun _ => rfl, fun _ => rfl, rfl⟩) fun _ => ?_
  split
  · exact minds_pure _
  · refine minds_read_bind fun w => ?_
    cases w.jobs.lookup sc.runId with
    | none => exact minds_pure _
    | some job =>
      dsimp only
      split
      · exact minds_pure _
      · exact minds_bind (minds_onJobs hl r (by simp [Write.about])) fun _ => minds_pure _

theorem minds_decide (hl : sc.loud) (now : Jobs.Time) (tenantId : String) (approvalId evidenceVersion : ℕ)
    (decision : Decision) (human : Except Problem Unit) :
    Minds sc (decide now tenantId sc.runId approvalId evidenceVersion decision human) := by
  have hloud : ∀ {P : Prop}, sc.loud = false → P := fun h => by simp [hl] at h
  refine minds_bind (minds_ownedRun _) fun d => ?_
  split
  · exact minds_raise _
  · refine minds_bind (minds_check _) fun _ => minds_bind (minds_check _) fun _ => minds_bind (minds_check _) fun _ => ?_
    split
    · exact minds_bind (minds_change ⟨fun _ _ _ => rfl, fun _ _ => rfl, hloud, fun _ => rfl, rfl⟩) fun _ => minds_raise _
    · refine minds_bind (minds_change ⟨fun _ _ _ => rfl, fun _ _ => rfl, hloud, fun _ => rfl, rfl⟩) fun _ =>
        minds_bind (minds_createCommand _ _) fun _ => minds_bind ?_ fun _ =>
          minds_bind (minds_finalizeRunWithResult hl _ _ _ rfl _ _) fun _ =>
            minds_bind (minds_change ⟨fun _ _ _ => rfl, fun _ _ => rfl, fun _ => rfl, fun _ => rfl, rfl⟩) fun _ => minds_pure _
      cases decision with
      | approve =>
        unfold registerCandidate
        cases d.run.pendingModelCandidate with
        | none => exact minds_raise _
        | some modelId =>
          dsimp only
          split
          · exact minds_pure _
          · exact minds_bind (fun _ => mindsAt_insert rfl rfl (fun _ => rfl) (fun _ => rfl) rfl) fun _ => minds_pure _
      | requestChanges | reject => exact minds_pure _

end AutomlApi.Workflow
