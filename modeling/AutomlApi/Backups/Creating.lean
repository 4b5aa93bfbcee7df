import AutomlApi.Library.Runs
import AutomlApi.Backups.Restore
import AutomlApi.Backups.Service

/-! Taking a backup while the service runs. The call reads the database twice and copies
the object tree in between, one path after the other; between any two of its steps the
service may take any number of its own. -/

namespace AutomlApi.Backups

/-! ### Retention -/

def backupPrefix : String := "automl-backup-"

def isBackup (name : String) : Bool := backupPrefix.toList.isPrefixOf name.toList

/-- What stands below the backup directory, by name. -/
abbrev BackupRoot := Dict String Listing

/-- `_backup_directories`, the greatest name first. -/
def backupDirectories (root : BackupRoot) : List String :=
  ((root.map Prod.fst).filter fun n => isBackup n).insertionSort fun a b => b ≤ a

/-- `_prune_backups`. -/
def pruneBackups (retentionCount : ℕ) (root : BackupRoot) : BackupRoot :=
  let expired := (backupDirectories root).drop retentionCount
  root.only fun n => n ∉ expired

/-- `os.replace(staging, destination)`: an empty directory of the name gives way, another
one does not. -/
def publish (name : String) (staging : Listing) (root : BackupRoot) : Option BackupRoot :=
  if (root.get name).any fun held => !held.isEmpty then none else some ((root.erase name).set name staging)

theorem publish_eq_some {name : String} {staging : Listing} {root placed : BackupRoot} :
    publish name staging root = some placed ↔
      (∀ held, root.get name = some held → held = []) ∧ placed = (root.erase name).set name staging := by
  unfold publish
  rw [Option.ite_none_left_eq_some, Option.some.injEq, @eq_comm _ _ placed]
  refine and_congr_left fun _ => ?_
  cases root.get name <;> simp

/-! ### The call -/

/-- The arguments of the call and what it draws. -/
structure Setting (δ : Type) where
  lib : Libraries
  /-- What a file of a database holds. -/
  read : Bytes → Database
  /-- `_database_content_hash`, over the dump of the contents. -/
  contentHash : Database → δ
  state : Path
  root : Path
  retentionCount : ℕ
  stagingName : String
  name : String
  named : isBackup name = true

def beforeName : Path := [".automl-before.db"]

def databaseName : Path := ["automl.db"]

/-- Where the call stands; `staging` is what its directory holds. -/
inductive Stage where
  | started
  | attempting (attempt : ℕ) (staging : Listing)
  | snapped (attempt : ℕ) (staging : Listing) (before : Bytes)
  /-- The tree is being listed; `since` are the paths that have been there all along. -/
  | listing (attempt : ℕ) (staging : Listing) (before : Bytes) (since : List Path)
  | copying (attempt : ℕ) (staging : Listing) (before : Bytes) (todo : List Path)
  | comparing (attempt : ℕ) (staging : Listing) (before database : Bytes)
  | settled (staging : Listing)
  | collected (staging : Listing)
  | written (staging : Listing)
  | verified (staging : Listing)
  | published
  | returned
  | raised
  deriving DecidableEq

structure System where
  service : Service
  stage : Stage
  backups : BackupRoot

inductive Move where
  | check
  | snapshotBefore (bytes : Bytes)
  | noObjects
  | beginList
  /-- A listing has every path that was there from its beginning to its end. -/
  | endList (paths : List Path)
  | copy
  | snapshotAfter (bytes : Bytes)
  | compare
  | copySecret
  | writeManifest (createdAt : String)
  | verify
  | publish
  | prune
  /-- An operation on the files or on a database fails. -/
  | fail

inductive Label where
  | service (a : Action)
  | backup (m : Move)

variable {δ : Type} [DecidableEq δ] (set : Setting δ)

/-- `_manifest`. -/
def manifestOf (createdAt : String) (files : List (Path × Bytes)) : Manifest :=
  ⟨1, createdAt, "managed-automl-api",
    some (files.map fun f => some ⟨some (asPosix f.1), f.2.length, set.lib.sha256 f.2⟩)⟩

/-- One path of `_copy_tree`: what is there when its turn comes. -/
def copyPath (objects staging : Listing) (path : Path) : Option Listing :=
  let target := "objects" :: path
  match objects.get path with
  | none => some staging
  | some .folder => some (staging.setDefault target .folder)
  | some (.file bytes) => some ((makeParents target staging).set target (.file bytes))
  | some .link => none

/-- `shutil.rmtree(copied_objects)`. -/
def withoutObjects (staging : Listing) : Listing := staging.only fun path => path.head? ≠ some "objects"

def Stage.move (service : Service) (backups : BackupRoot) : Stage → Move → Option (Stage × BackupRoot)
  | .started, .check =>
    some (if set.retentionCount < 1 ∨ set.state <+: set.root then .raised else .attempting 0 [], backups)
  | .attempting attempt staging, .snapshotBefore bytes =>
    if set.read bytes = service.database then
      some (.snapped attempt (staging.set beforeName (.file bytes)) bytes, backups)
    else none
  | .snapped attempt staging before, .noObjects =>
    if service.objects = [] then some (.copying attempt staging before [], backups) else none
  | .snapped attempt staging before, .beginList =>
    some (.listing attempt (staging.set ["objects"] .folder) before (service.objects.map Prod.fst), backups)
  | .listing attempt staging before since, .endList paths =>
    if ∀ path ∈ since, path ∈ paths then some (.copying attempt staging before paths, backups) else none
  | .copying attempt staging before (path :: todo), .copy =>
    match copyPath service.objects staging path with
    | some staging => some (.copying attempt staging before todo, backups)
    | none => some (.raised, backups)
  | .copying attempt staging before [], .snapshotAfter bytes =>
    if set.read bytes = service.database then
      some (.comparing attempt (staging.set databaseName (.file bytes)) before bytes, backups)
    else none
  | .comparing attempt staging before database, .compare =>
    if set.contentHash (set.read before) = set.contentHash (set.read database) then
      some (.settled (staging.erase beforeName), backups)
    else if attempt = 2 then some (.raised, backups)
    else some (.attempting (attempt + 1) (withoutObjects ((staging.erase beforeName).erase databaseName)), backups)
  | .settled staging, .copySecret =>
    match service.ticketSecret with
    | some bytes => some (.collected (staging.set ["ticket-secret"] (.file bytes)), backups)
    | none => some (.collected staging, backups)
  | .collected staging, .writeManifest createdAt =>
    match regularFiles staging with
    | .ok files =>
      some (.written (staging.set [manifestName] (.file (set.lib.dumps (manifestOf set createdAt files)))), backups)
    | .error _ => some (.raised, backups)
  | .written staging, .verify =>
    match verifyBackup set.lib (set.root ++ [set.stagingName]) staging with
    | .ok _ => some (.verified staging, backups)
    | .error _ => some (.raised, backups)
  | .verified staging, .publish =>
    match publish set.name staging backups with
    | some backups => some (.published, backups)
    | none => some (.raised, backups)
  | .published, .prune => some (.returned, pruneBackups set.retentionCount backups)
  | .returned, _ => none
  | .raised, _ => none
  | _, .fail => some (.raised, backups)
  | _, _ => none

/-- A path that is removed has not been there all along. -/
def Stage.notice : Action → Stage → Stage
  | .remove path, .listing attempt staging before since => .listing attempt staging before (since.filter (· ≠ path))
  | _, stage => stage

def System.step (s : System) : Label → Option System
  | .service a =>
    match s.service.act set.lib.sha256 a with
    | some service => some { s with service, stage := s.stage.notice a }
    | none => none
  | .backup m =>
    match s.stage.move set s.service s.backups m with
    | some (stage, backups) => some { s with stage, backups }
    | none => none

/-! ### What a backup is to hold -/

/-- The copied object of a record. -/
def Record.Copied (r : Record) (entries : Listing) : Prop :=
  r.Stored set.lib.sha256 (Dict.get entries ("objects" :: r.blobKey))

/-- Every readable record of the copied database has its bytes in the copied objects. -/
def Whole (entries : Listing) : Prop :=
  ∃ database, Dict.get entries databaseName = some (.file database) ∧
    ∀ id r, (set.read database).records.get id = some r → r.standing = .readable → r.Copied set entries

/-- The backup that the call returns is there, is whole, and passes `verify_backup`. -/
def System.Complete (s : System) : Prop :=
  ∃ entries, s.backups.get set.name = some entries ∧ Whole set entries ∧
    ∃ manifest, verifyBackup set.lib (set.root ++ [set.name]) entries = .ok manifest

end AutomlApi.Backups
