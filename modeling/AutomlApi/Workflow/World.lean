import AutomlApi.Library.Dict
import AutomlApi.Library.Durable
import AutomlApi.Workflow.Data

/-! The durable state under the workflow: the store's collections, the job table and
the files of the object store. Each record is one transaction of the store, or
one file that appears or goes. -/

namespace AutomlApi.Workflow

open Jobs (Table Job Readings)

structure Dataset where
  tenantId : String
  deletedAt : Bool

inductive VersionStatus where
  | uploading | ready | deleted
  deriving DecidableEq

structure DatasetVersion where
  datasetId : ℕ
  tenantId : String
  status : VersionStatus
  revision : ℕ
  uploadId : ℕ
  sha256 : Option String
  blobKey : Bool

inductive DeletionStatus where
  | running | completed | failed
  deriving DecidableEq

structure Deletion where
  tenantId : String
  datasetId : ℕ
  status : DeletionStatus
  affectedRunIds : List ℕ

/-- The objects of the store that hold bytes: datasets by their version, artifacts by
their run and id. -/
inductive BlobKey where
  | dataset (versionId : ℕ)
  | artifact (runId artifactId : ℕ)
  deriving DecidableEq

structure World where
  ids : ℕ
  datasets : Dict ℕ Dataset
  versions : Dict ℕ DatasetVersion
  runs : Dict ℕ RunData
  jobs : Table ℕ
  deletions : Dict ℕ Deletion
  blobs : List BlobKey

def World.empty : World := ⟨0, [], [], [], .empty, [], []⟩

/-- One durable change. A dataset comes with its first version, and draws both ids in the
same transaction; a deletion draws its id, and a change of a run may draw one. -/
inductive Write where
  | newId
  | dataset (d : Dataset) (v : DatasetVersion)
  | datasetDeleted (id : ℕ)
  | versionReady (id : ℕ) (sha256 : String)
  | versionDeleted (id : ℕ)
  | run (runId : ℕ) (r : Run)
  | on (runId : ℕ) (c : Change) (drawsId : Bool)
  | job (r : Readings) (op : Jobs.Op ℕ)
  | deletion (d : Deletion)
  | deletionSet (id : ℕ) (status : DeletionStatus)
  | put (key : BlobKey)
  | remove (key : BlobKey)

/-- An update of the value under a key, if there is one. -/
def modifyKey {α : Type} (d : Dict ℕ α) (k : ℕ) (f : α → α) : Dict ℕ α :=
  match d.get k with
  | some v => d.set k (f v)
  | none => d

/-- The data of a run that has just been created. -/
def RunData.create (r : Run) : RunData := ⟨r, [], [], [], [], [], [], [], none⟩

def World.apply (w : World) : Write → World
  | .newId => { w with ids := w.ids + 1 }
  | .dataset d v =>
    { w with
      ids := w.ids + 2
      datasets := w.datasets.set (w.ids + 1) d
      versions := w.versions.set (w.ids + 2) { v with datasetId := w.ids + 1 } }
  | .datasetDeleted id => { w with datasets := modifyKey w.datasets id fun d => { d with deletedAt := true } }
  | .versionReady id sha256 =>
    { w with versions := modifyKey w.versions id fun v =>
      { v with status := .ready, revision := v.revision + 1, sha256 := some sha256, blobKey := true } }
  | .versionDeleted id => { w with versions := modifyKey w.versions id fun v => { v with status := .deleted } }
  | .run runId r => { w with runs := w.runs.set runId (.create r) }
  | .on runId c drawsId =>
    { w with
      ids := if drawsId then w.ids + 1 else w.ids
      runs := modifyKey w.runs runId fun d => d.apply c }
  | .job r op => { w with jobs := (op.apply w.jobs r).1 }
  | .deletion d => { w with ids := w.ids + 1, deletions := w.deletions.set (w.ids + 1) d }
  | .deletionSet id status => { w with deletions := modifyKey w.deletions id fun d => { d with status := status } }
  | .put key => { w with blobs := key :: w.blobs.filter (· ≠ key) }
  | .remove key => { w with blobs := w.blobs.filter (· ≠ key) }

instance : Replay World Write := ⟨World.apply⟩

/-! ### Programs -/

/-- A problem that the API answers with. -/
structure Problem where
  status : ℕ
  code : String
  deriving DecidableEq

/-- What programs raise: an `APIProblem`, a `StoreError`, a fault of the job table, or
another exception. -/
inductive Fault where
  | problem (p : Problem)
  | notFound (resource : String) (id : ℕ)
  | alreadyExists (resource : String) (id : ℕ)
  | revisionConflict (expected current : ℕ)
  | job (fault : Jobs.Fault ℕ)
  | runtime (message : String)
  deriving DecidableEq

/-- A program of the service. -/
abbrev Prog := Durable World Write Fault

open Durable (read write raise check)

/-- `new_id`. -/
def newId : Prog ℕ := do
  let w ← read
  write .newId
  pure (w.ids + 1)

/-- The data of a run, for the operations that need it to be there. -/
def find (runId : ℕ) : Prog RunData := do
  let w ← read
  match w.runs.get runId with
  | some d => pure d
  | none => raise (.notFound "run" runId)

/-- A change of a run that is there. -/
def change (runId : ℕ) (c : Change) : Prog RunData := do
  let d ← find runId
  write (.on runId c false)
  pure (d.apply c)

/-- A change that takes the next id. -/
def changeWithId (runId : ℕ) (c : ℕ → Change) : Prog (ℕ × RunData) := do
  let d ← find runId
  let w ← read
  write (.on runId (c (w.ids + 1)) true)
  pure (w.ids + 1, d.apply (c (w.ids + 1)))

/-- The check of an expected revision. -/
def requireRevision (r : Run) : Option ℕ → Except Fault Unit
  | none => .ok ()
  | some expected => if expected = r.runRevision then .ok () else .error (.revisionConflict expected r.runRevision)

def updateRun (runId : ℕ) (p : RunPatch) (expectedRevision : Option ℕ) (bumpRevision : Bool) : Prog Run := do
  let d ← find runId
  let _ ← check (requireRevision d.run expectedRevision)
  let d ← change runId (.run p bumpRevision)
  pure d.run

/-- `append_event`, for an event under a new id. -/
def appendEvent (runId : ℕ) (payload : Payload) (runRevision : ℕ) : Prog Unit := do
  let _ ← change runId (.event payload runRevision)
  pure ()

/-- A new item under an id that no other item of the run has. -/
def insert {α : Type} (runId : ℕ) (resource : String) (items : RunData → List α) (key : α → ℕ)
    (wrap : α → Change) (item : α) : Prog α := do
  let d ← find runId
  if (items d).any (key · = key item) then raise (.alreadyExists resource (key item))
  else do
    let _ ← change runId (wrap item)
    pure item

def createOutput (runId : ℕ) (o : Output) : Prog Output :=
  insert runId "output" RunData.outputs Output.outputId .output o

def createDecisionPacket (runId : ℕ) (p : DecisionPacket) : Prog DecisionPacket :=
  insert runId "decision_packet" RunData.packets DecisionPacket.decisionPacketId .packet p

def createApproval (runId : ℕ) (a : Approval) : Prog Approval :=
  insert runId "approval" RunData.approvals Approval.approvalId .approval a

def createArtifact (runId : ℕ) (a : Artifact) : Prog Artifact :=
  insert runId "artifact" RunData.artifacts Artifact.artifactId .artifact a

def createModel (runId : ℕ) (modelId : ℕ) : Prog ℕ :=
  insert runId "model" RunData.models (fun id => id) .model modelId

/-- `create_command`, which draws the id of the command. -/
def createCommand (runId : ℕ) (type : CommandType) (status : CommandStatus) : Prog ℕ := do
  let (id, _) ← changeWithId runId fun id => .command ⟨id, type, status, none⟩
  pure id

def mutateRunWithEvent (runId : ℕ) (p : RunPatch) (payload : Payload) (expectedRevision : Option ℕ) : Prog Run := do
  let d ← find runId
  let _ ← check (requireRevision d.run expectedRevision)
  let d ← change runId (.mutated p payload)
  pure d.run

/-- `finalize_run_with_result`. The result that is there is never the same: its manifest
has another id. -/
def finalizeRunWithResult (runId : ℕ) (resultManifestId : Option ℕ) (outcome : Outcome) (code : Option String)
    (p : RunPatch) (events : List Payload) (expectedRevision : Option ℕ) : Prog Run := do
  let d ← find runId
  let _ ← check (requireRevision d.run expectedRevision)
  if d.result.isSome then raise (.alreadyExists "result" runId)
  else do
    let (_, d) ← changeWithId runId fun id => .finalized ⟨resultManifestId.getD id, outcome, code⟩ p events
    pure d.run

/-- An operation on the job table. -/
def onJobs (r : Readings) (op : Jobs.Op ℕ) : Prog (Option (Job ℕ)) := do
  let w ← read
  match (op.apply w.jobs r).2 with
  | .ok reply => do
    write (.job r op)
    pure reply
  | .error fault => raise (.job fault)

/-! ### On a run that is there -/

section

open Durable

variable {s : World} {runId : ℕ}

theorem find_eq {d : RunData} (hd : s.runs.get runId = some d) : find runId s = (.ok d, []) := by
  simp only [find, read_bind, hd]
  rfl

theorem change_eq {d : RunData} (hd : s.runs.get runId = some d) (ch : Change) :
    change runId ch s = (.ok (d.apply ch), [.on runId ch false]) := by
  simp only [change, bind_eq, find_eq hd]
  rfl

theorem changeWithId_eq {d : RunData} (hd : s.runs.get runId = some d) (ch : ℕ → Change) :
    changeWithId runId ch s = (.ok (s.ids + 1, d.apply (ch (s.ids + 1))), [.on runId (ch (s.ids + 1)) true]) := by
  simp only [changeWithId, bind_eq, find_eq hd]
  rfl

theorem updateRun_eq {d : RunData} (hd : s.runs.get runId = some d) (p : RunPatch) {expected : Option ℕ}
    (hrev : ∀ e ∈ expected, e = d.run.runRevision) (bump : Bool) :
    updateRun runId p expected bump s = (.ok (d.run.update p bump), [.on runId (.run p bump) false]) := by
  have hcheck : requireRevision d.run expected = .ok () := by
    cases expected with
    | none => rfl
    | some e => rw [requireRevision, if_pos (hrev e rfl)]
  simp only [updateRun, bind_eq, find_eq hd, hcheck, check, replay_nil, change_eq hd]
  rfl

theorem finalizeRunWithResult_eq {d : RunData} (hd : s.runs.get runId = some d) (hopen : d.result = none)
    (resultManifestId : Option ℕ) (outcome : Outcome) (code : Option String) (p : RunPatch) (events : List Payload)
    (expected : Option ℕ) (hrev : ∀ e ∈ expected, e = d.run.runRevision) :
    ∃ run, finalizeRunWithResult runId resultManifestId outcome code p events expected s =
      (.ok run, [.on runId (.finalized ⟨resultManifestId.getD (s.ids + 1), outcome, code⟩ p events) true]) := by
  have hcheck : requireRevision d.run expected = .ok () := by
    cases expected with
    | none => rfl
    | some e => rw [requireRevision, if_pos (hrev e rfl)]
  simp only [finalizeRunWithResult, bind_eq, find_eq hd, hcheck, check, hopen, Option.isSome_none, replay_nil,
    Bool.false_eq_true, if_false, changeWithId_eq hd]
  exact ⟨_, rfl⟩

theorem finalizeRunWithResult_closed {d : RunData} (hd : s.runs.get runId = some d) (hclosed : d.result.isSome)
    (resultManifestId : Option ℕ) (outcome : Outcome) (code : Option String) (p : RunPatch) (events : List Payload)
    (expected : Option ℕ) :
    ∃ e, finalizeRunWithResult runId resultManifestId outcome code p events expected s = (.error e, []) := by
  simp only [finalizeRunWithResult, bind_eq, find_eq hd]
  cases requireRevision d.run expected with
  | error e => exact ⟨e, rfl⟩
  | ok _ => simp only [check, hclosed, if_true]; exact ⟨_, rfl⟩

theorem insert_eq {ι : Type} {d : RunData} (hd : s.runs.get runId = some d) (resource : String)
    {items : RunData → List ι} {key : ι → ℕ} (wrap : ι → Change) {item : ι}
    (hnew : ∀ x ∈ items d, key x ≠ key item) :
    insert runId resource items key wrap item s = (.ok item, [.on runId (wrap item) false]) := by
  have hany : (items d).any (key · = key item) = false := by simpa using hnew
  simp only [insert, bind_eq, find_eq hd, hany, Bool.false_eq_true, if_false, replay_nil, change_eq hd]
  rfl

theorem updateRun_eq_none {d : RunData} (hd : s.runs.get runId = some d) (p : RunPatch) (bump : Bool) :
    updateRun runId p none bump s = (.ok (d.run.update p bump), [.on runId (.run p bump) false]) :=
  updateRun_eq hd p (by simp) bump

theorem insert_cases (hd : (s.runs.get runId).isSome) {ι : Type} (resource : String) (items : RunData → List ι)
    (key : ι → ℕ) (wrap : ι → Change) (item : ι) :
    (∃ e, insert runId resource items key wrap item s = (.error e, [])) ∨
      insert runId resource items key wrap item s = (.ok item, [.on runId (wrap item) false]) := by
  obtain ⟨d, hd⟩ := Option.isSome_iff_exists.mp hd
  simp only [insert, bind_eq, find_eq hd, replay_nil]
  split
  · exact .inl ⟨_, rfl⟩
  · right
    simp only [bind_eq, change_eq hd]
    rfl

theorem mutateRunWithEvent_cases (hd : (s.runs.get runId).isSome) (p : RunPatch) (payload : Payload)
    (expected : Option ℕ) :
    (∃ e, mutateRunWithEvent runId p payload expected s = (.error e, [])) ∨
      ∃ run, mutateRunWithEvent runId p payload expected s = (.ok run, [.on runId (.mutated p payload) false]) := by
  obtain ⟨d, hd⟩ := Option.isSome_iff_exists.mp hd
  simp only [mutateRunWithEvent, bind_eq, find_eq hd, replay_nil, check]
  cases requireRevision d.run expected with
  | error e => exact .inl ⟨e, rfl⟩
  | ok _ =>
    right
    simp only [replay_nil, change_eq hd]
    exact ⟨_, rfl⟩

theorem finalizeRunWithResult_cases (hd : (s.runs.get runId).isSome) (resultManifestId : Option ℕ)
    (outcome : Outcome) (code : Option String) (p : RunPatch) (events : List Payload) (expected : Option ℕ) :
    (∃ e, finalizeRunWithResult runId resultManifestId outcome code p events expected s = (.error e, [])) ∨
      ∃ run result, finalizeRunWithResult runId resultManifestId outcome code p events expected s =
        (.ok run, [.on runId (.finalized result p events) true]) := by
  obtain ⟨d, hd⟩ := Option.isSome_iff_exists.mp hd
  simp only [finalizeRunWithResult, bind_eq, find_eq hd, replay_nil, check]
  cases requireRevision d.run expected with
  | error e => exact .inl ⟨e, rfl⟩
  | ok _ =>
    dsimp only
    split
    · exact .inl ⟨_, rfl⟩
    · right
      simp only [bind_eq, replay_nil, changeWithId_eq hd]
      exact ⟨_, _, rfl⟩

end

end AutomlApi.Workflow
