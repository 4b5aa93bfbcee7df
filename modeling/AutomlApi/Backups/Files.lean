import AutomlApi.Library.Checked
import AutomlApi.Library.Dict
import Mathlib.Data.List.Infix
import Mathlib.Data.List.Sort

/-! The files of a backup and the check of their manifest. What a library does with the
bytes of a file (its digest, the JSON of the manifest, the quick check of a database) is a
parameter. -/

namespace AutomlApi.Backups

abbrev Bytes := List UInt8

/-- The parts of a path. -/
abbrev Path := List String

inductive Leaf where
  | file (bytes : Bytes)
  | folder
  | link
  deriving DecidableEq

/-- What `rglob("*")` lists below a directory, by relative path. -/
abbrev Listing := Dict Path Leaf

/-- A directory: no path twice, and what lies above a path is a folder. -/
structure Tree where
  entries : Listing
  distinct : (entries.map Prod.fst).Nodup
  rooted : ∀ e ∈ entries, ∀ q ∈ e.1.inits, q ≠ [] → q ≠ e.1 → entries.get q = some .folder

inductive Failure where
  | backupError (text : String)
  | osError
  deriving DecidableEq

def manifestName : String := "manifest.json"

/-- `_MANAGED_PATHS`. -/
def managedPaths : List String := ["automl.db", "objects", "ticket-secret"]

structure FileRecord where
  /-- `none`: not a string. -/
  path : Option String
  sizeBytes : ℤ
  sha256 : String
  deriving DecidableEq

structure Manifest where
  schemaVersion : ℤ
  createdAt : String
  service : String
  /-- `none`: not a list; an item that is `none` is not an object. -/
  files : Option (List (Option FileRecord))
  deriving DecidableEq

/-- What the libraries make of bytes. -/
structure Libraries where
  sha256 : Bytes → String
  /-- `json.loads` of the text, `none` where it raises. -/
  loads : Bytes → Option Manifest
  dumps : Manifest → Bytes
  /-- `PRAGMA quick_check` over an immutable connection. -/
  quickCheck : Bytes → Bool

/-- `as_posix()`. -/
def asPosix (path : Path) : String := String.ofList (List.intercalate ['/'] (path.map String.toList))

theorem splitOn_asPosix {path : Path} (hne : path ≠ []) (h : ∀ part ∈ path, '/' ∉ part.toList) :
    ((asPosix path).toList.splitOn '/').map String.ofList = path := by
  unfold asPosix
  rw [String.toList_ofList, List.splitOn_intercalate]
  · simp [List.map_map, Function.comp_def]
  · intro part hpart
    obtain ⟨name, hname, rfl⟩ := List.mem_map.mp hpart
    exact h name hname
  · simpa using hne

/-- `root / relative`, resolved. -/
def resolve (root : Path) (relative : String) : Path :=
  ((relative.toList.splitOn '/').map String.ofList).foldl
    (fun place part => if part = "" ∨ part = "." then place else if part = ".." then place.dropLast else place ++ [part])
    root

/-- `_regular_files`, sorted by their posix paths. -/
def regularFiles (entries : Listing) : Except Failure (List (Path × Bytes)) :=
  if entries.any fun e => e.2 = .link then .error (.backupError "backup content must not contain symbolic links")
  else .ok ((entries.filterMap fun e =>
      match e.2 with
      | .file bytes => if e.1.getLast? = some manifestName then none else some (e.1, bytes)
      | _ => none).insertionSort fun p q => asPosix p.1 ≤ asPosix q.1)

/-- The sizes and digests that the manifest records. -/
def expectedFiles (root : Path) : List (Option FileRecord) → Dict String (ℤ × String) → Except Failure (Dict String (ℤ × String))
  | [], expected => .ok expected
  | none :: _, _ => .error (.backupError "backup manifest contains an invalid file record")
  | some item :: rest, expected =>
    match item.path with
    | none => .error (.backupError "backup manifest contains an unsafe path")
    | some relative =>
      if relative = "" ∨ relative.toList.head? = some '/' then .error (.backupError "backup manifest contains an unsafe path")
      else if ¬ root <+: resolve root relative then
        .error (.backupError "backup manifest path escapes the backup directory")
      else expectedFiles root rest (expected.set relative (item.sizeBytes, item.sha256))

variable (lib : Libraries)

/-- Every file has the size and the digest that are expected of it. -/
def checkFiles (expected : Dict String (ℤ × String)) : List (Path × Bytes) → Except Failure Unit
  | [] => .ok ()
  | (path, bytes) :: rest =>
    if expected.get (asPosix path) = some ((bytes.length : ℤ), lib.sha256 bytes) then checkFiles expected rest
    else .error (.backupError ("backup integrity check failed for " ++ asPosix path))

/-- `verify_backup`. -/
def verifyBackup (root : Path) (entries : Listing) : Except Failure Manifest :=
  match entries.get [manifestName] with
  | some (.file text) =>
    match lib.loads text with
    | none => .error (.backupError "backup manifest is invalid")
    | some manifest =>
      match manifest.files with
      | none => .error (.backupError "backup manifest schema is unsupported")
      | some files => do
        refuse (.backupError "backup manifest schema is unsupported") (manifest.schemaVersion ≠ 1)
        let expected ← expectedFiles root files []
        let actual ← regularFiles entries
        let names := actual.map fun f => asPosix f.1
        refuse (.backupError "backup file set does not match the manifest")
          (¬ ((∀ name ∈ names, name ∈ expected.map Prod.fst) ∧ ∀ name ∈ expected.map Prod.fst, name ∈ names))
        checkFiles lib expected actual
        match entries.get ["automl.db"] with
        | some (.file database) => do
          refuse (.backupError "backup SQLite database failed quick_check") (lib.quickCheck database = false)
          .ok manifest
        | _ => .error (.backupError "backup does not contain automl.db")
  | _ => .error (.backupError "backup manifest is missing")

/-! ### What a verified backup holds -/

variable {lib} {root : Path} {entries : Listing} {manifest : Manifest}

theorem not_link_of_regularFiles {files : List (Path × Bytes)} (h : regularFiles entries = .ok files)
    {e : Path × Leaf} (he : e ∈ entries) : e.2 ≠ .link := by
  intro hlink
  unfold regularFiles at h
  rw [if_pos (List.any_eq_true.mpr ⟨e, he, by simpa using hlink⟩)] at h
  cases h

theorem mem_of_regularFiles {files : List (Path × Bytes)} (h : regularFiles entries = .ok files) {f : Path × Bytes}
    (hf : f ∈ files) : ∃ leaf, (f.1, leaf) ∈ entries := by
  unfold regularFiles at h
  split at h
  next => cases h
  next =>
    cases h
    obtain ⟨e, he, hfile⟩ := List.mem_filterMap.mp ((List.mem_insertionSort _).mp hf)
    refine ⟨e.2, ?_⟩
    split at hfile
    next =>
      split at hfile
      next => cases hfile
      next =>
        cases hfile
        exact he
    next => cases hfile

theorem verified (h : verifyBackup lib root entries = .ok manifest) :
    (∀ e ∈ entries, e.2 ≠ .link) ∧ ∃ database, entries.get ["automl.db"] = some (.file database) := by
  unfold verifyBackup at h
  split at h
  next text _ =>
    split at h
    next => cases h
    next read _ =>
      split at h
      next => cases h
      next files _ =>
        obtain ⟨-, h⟩ := refuse_bind_eq_ok h
        obtain ⟨expected, -, h⟩ := except_bind_eq_ok h
        obtain ⟨actual, hactual, h⟩ := except_bind_eq_ok h
        obtain ⟨-, h⟩ := refuse_bind_eq_ok h
        obtain ⟨-, -, h⟩ := except_bind_eq_ok h
        refine ⟨fun e he => not_link_of_regularFiles hactual he, ?_⟩
        split at h
        next database hdatabase => exact ⟨database, hdatabase⟩
        next => cases h
  next => cases h

/-! ### A directory of a directory -/

/-- The entry as it stands below `name`. -/
def belowName (name : String) (e : Path × Leaf) : Option (Path × Leaf) :=
  match e.1 with
  | top :: part :: rest => if top = name then some (part :: rest, e.2) else none
  | _ => none

theorem belowName_eq_some {name : String} {e e' : Path × Leaf} :
    belowName name e = some e' ↔ e'.1 ≠ [] ∧ e = (name :: e'.1, e'.2) := by
  obtain ⟨path, leaf⟩ := e
  obtain ⟨path', leaf'⟩ := e'
  unfold belowName
  rcases path with _ | ⟨top, _ | ⟨part, rest⟩⟩
  · simp
  · simpa using fun h _ h' => absurd h' h
  · by_cases htop : top = name
    · simp only [htop, if_true, Option.some.injEq, Prod.mk.injEq, List.cons.injEq, true_and, ne_eq]
      constructor
      · rintro ⟨rfl, rfl⟩
        simp
      · rintro ⟨-, rfl, rfl⟩
        simp
    · simp [htop]

/-- What lies below the name, listed from there. -/
def Listing.under (entries : Listing) (name : String) : Listing := entries.filterMap (belowName name)

theorem Listing.get_under (entries : Listing) (name : String) {path : Path} (hpath : path ≠ []) :
    (entries.under name).get path = Dict.get entries (name :: path) := by
  unfold Listing.under
  induction entries with
  | nil => rfl
  | cons e entries ih =>
    rw [Dict.get_cons, List.filterMap_cons]
    cases hbelow : belowName name e with
    | none =>
      rw [ih, if_neg]
      intro he
      have : belowName name e = some (path, e.2) := belowName_eq_some.mpr ⟨hpath, Prod.ext he rfl⟩
      simp [hbelow] at this
    | some e' =>
      obtain ⟨-, rfl⟩ := belowName_eq_some.mp hbelow
      rw [Dict.get_cons, ih]
      simp

/-- The directory of that name. -/
def Tree.under (t : Tree) (name : String) : Tree where
  entries := Listing.under t.entries name
  distinct := by
    have h := List.pairwise_map.mp t.distinct
    refine List.pairwise_map.mpr (List.Pairwise.filterMap _ ?_ h)
    intro e₁ e₂ hne e₁' h₁ e₂' h₂ heq
    obtain ⟨-, rfl⟩ := belowName_eq_some.mp h₁
    obtain ⟨-, rfl⟩ := belowName_eq_some.mp h₂
    exact hne (by simp [heq])
  rooted := by
    intro e' he' q hq hnil hne
    obtain ⟨e, he, hbelow⟩ := List.mem_filterMap.mp he'
    obtain ⟨-, rfl⟩ := belowName_eq_some.mp hbelow
    rw [Listing.get_under _ _ hnil]
    refine t.rooted _ he (name :: q) ?_ (by simp) (by simpa using hne)
    rw [List.mem_inits] at hq ⊢
    exact List.cons_prefix_cons.mpr ⟨rfl, hq⟩

end AutomlApi.Backups
