import AutomlApi.Library.Triples
import AutomlApi.Backups.Files

/-! Restoring a backup into a state directory. Every operation on a file may fail; what
the call has moved and installed until then is undone. -/

namespace AutomlApi.Backups

open Act

/-- What a name of the state directory stands for. -/
inductive Node where
  | file (bytes : Bytes)
  | directory (below : Listing)
  deriving DecidableEq

abbrev Entries := Dict String Node

/-- The state directory and the locals of the call. The call's own two directories have
fresh names and stand apart from the entries. -/
structure Restoring where
  entries : Entries
  staging : Option Entries
  rollback : Option Entries
  movedOld : List String
  installed : List String
  /-- How many operations still succeed; `none`: all of them. -/
  failing : Option ℕ
  /-- What a copy that fails has written. -/
  torn : Bytes

namespace Restoring

def start (entries : Entries) (failing : Option ℕ) (torn : Bytes) : Restoring :=
  ⟨entries, none, none, [], [], failing, torn⟩

/-- A file of the staging directory. -/
def put (name : String) (node : Node) (s : Restoring) : Restoring :=
  { s with staging := s.staging.map fun d => d.set name node }

/-- Below a directory of the staging directory. -/
def putBelow (name : String) (f : Listing → Listing) (s : Restoring) : Restoring :=
  { s with staging := s.staging.map fun d =>
      match d.get name with
      | some (.directory below) => d.set name (.directory (f below))
      | _ => d }

/-- `os.replace(target / name, rollback / name)`. -/
def moveOld (name : String) (s : Restoring) : Restoring :=
  match s.entries.get name, s.rollback with
  | some node, some kept =>
    { s with
      entries := s.entries.erase name
      rollback := some (kept.set name node)
      movedOld := s.movedOld ++ [name] }
  | _, _ => s

/-- `os.replace(staging / name, target / name)`. -/
def install (name : String) (s : Restoring) : Restoring :=
  match s.staging with
  | some staging =>
    match staging.get name with
    | some node =>
      { s with
        entries := s.entries.set name node
        staging := some (staging.erase name)
        installed := s.installed ++ [name] }
    | none => s
  | none => s

/-- `os.replace(rollback / name, target / name)` for the names that were moved. -/
def putBack : List String → Entries × Entries → Entries × Entries
  | [], p => p
  | name :: rest, (kept, entries) =>
    match kept.get name with
    | some node => putBack rest (kept.erase name, entries.set name node)
    | none => putBack rest (kept, entries)

/-- The handler of `restore_backup`. -/
def undo (s : Restoring) : Restoring :=
  let cleared := s.installed.foldl Dict.erase s.entries
  match s.rollback with
  | none => { s with entries := cleared, staging := none }
  | some kept =>
    let back := putBack s.movedOld (kept, cleared)
    { s with
      entries := back.2
      rollback := if back.1 = [] then none else some back.1
      staging := none }

end Restoring

open Restoring

abbrev RestoreM := Act Restoring Failure

/-- An operation on the files; `cut` is what it leaves when it fails. -/
def attempt (cut done : Restoring → Restoring) : RestoreM Unit := fun s =>
  match s.failing with
  | some 0 => (.error .osError, cut s)
  | some (k + 1) => (.ok (), done { s with failing := some k })
  | none => (.ok (), done s)

def operation (done : Restoring → Restoring) : RestoreM Unit := attempt id done

/-- `target.parent.mkdir(parents=True, exist_ok=True)`. -/
def makeParents (path : Path) (below : Listing) : Listing :=
  (path.dropLast.inits.filter fun q => q ≠ []).foldl (fun below q => below.setDefault q .folder) below

def copyEntry (name : String) (e : Path × Leaf) : RestoreM Unit :=
  match e.2 with
  | .link => raise (.backupError "managed state must not contain symbolic links")
  | .folder => do
    operation (putBelow name fun below => below.setDefault e.1 .folder)
    operation id
  | .file bytes => do
    operation (putBelow name (makeParents e.1))
    attempt (fun s => putBelow name (fun below => below.set e.1 (.file s.torn)) s)
      (putBelow name fun below => below.set e.1 (.file bytes))
    operation id

/-- `_copy_tree`. -/
def copyTree (name : String) (source : Listing) : RestoreM Unit := do
  operation (put name (.directory []))
  operation id
  each (copyEntry name) source

/-- A managed path of the backup, copied next to the state. -/
def stage (backup : Tree) (name : String) : RestoreM Unit := do
  operation id
  match backup.entries.get [name] with
  | none => pure ()
  | some .link => raise (.backupError "managed state must not contain symbolic links")
  | some .folder => copyTree name (backup.under name).entries
  | some (.file bytes) => do
    attempt (fun s => put name (.file s.torn) s) (put name (.file bytes))
    operation id

/-- The staged path takes its place. -/
def installStaged (name : String) : RestoreM Unit := do
  operation id
  let s ← get
  if (s.staging.bind fun d => d.get name).isSome then operation (install name) else pure ()

/-- Those of the managed paths that are there give way. -/
def moveCurrent (current : List String) : RestoreM Unit :=
  if current = [] then pure ()
  else do
    operation fun s => { s with rollback := some [] }
    each (fun name => operation (moveOld name)) current

def removeStaging : RestoreM Unit := do
  let s ← get
  check (refuse .osError (s.staging ≠ some []))
  operation fun s => { s with staging := none }

/-- The `try` of `restore_backup`. -/
def replaceManaged (backup : Tree) : RestoreM Unit := do
  each (stage backup) managedPaths
  each (fun _ => operation id) managedPaths
  let s ← get
  moveCurrent (managedPaths.filter fun name => s.entries.has name)
  each installStaged managedPaths
  removeStaging

/-- `restore_backup`; the result is the path of the rollback directory. -/
def restoreBackup (lib : Libraries) (source target : Path) (backup : Tree) (force : Bool) (preRestore : String) :
    RestoreM (Option Path) := do
  let _ ← check (verifyBackup lib source backup.entries)
  check (refuse (.backupError "restore target must not overlap the backup directory") (target <+: source ∨ source <+: target))
  let s ← get
  check (refuse (.backupError "restore target is not empty; pass --force after stopping the API")
    (s.entries ≠ [] ∧ force = false))
  operation id
  operation id
  operation fun s => { s with staging := some [] }
  operation id
  onError (replaceManaged backup) undo
  let s ← get
  pure (s.rollback.map fun _ => target ++ [preRestore])

end AutomlApi.Backups
