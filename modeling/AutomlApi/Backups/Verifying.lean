import AutomlApi.Backups.Files
import AutomlApi.Library.Integers
import AutomlApi.Library.PyValues
import Mathlib.Data.Rat.Floor

/-! `verify_backup` over any directory and any manifest, with the exceptions that it does
not turn into a `BackupError`. It is exact where no file below the top is called like the
manifest, where the sizes of the records are numbers, and where nothing else is raised. -/

namespace AutomlApi.Backups.Verifying

open PyValue (lookup)

abbrev Fields := Dict String PyValue

/-! ### The check -/

/-- An exception that is no `BackupError`. -/
inductive Escape where
  | unicodeDecodeError
  | attributeError
  | typeError
  | valueError
  | overflowError
  | recursionError
  | databaseError
  deriving DecidableEq

inductive Raised where
  | backupError (text : String)
  | escape (e : Escape)
  deriving DecidableEq

/-- What `json.loads` makes of a text; `malformed` is `JSONDecodeError`. -/
inductive Loaded where
  | value (v : PyValue)
  | malformed
  | raised (e : Escape)

structure Libraries where
  sha256 : Bytes → String
  /-- `read_text`, `none` where the bytes are not UTF-8. -/
  decode : Bytes → Option String
  loads : String → Loaded
  /-- The digits that `int()` takes at most. -/
  maxDigits : ℕ
  /-- `str()` of a value that is no string. -/
  str : PyValue → String
  /-- The row of `PRAGMA quick_check`. -/
  quickCheck : Bytes → Except Escape (Option String)

/-- Where a path of the manifest resolves to. -/
inductive Place where
  | inside
  | outside
  | raised (e : Escape)
  deriving DecidableEq

/-- A backup directory. No part of a path is empty or has a slash, and without symbolic links
the path of a file resolves to the file. -/
structure Backup where
  tree : Tree
  place : String → Place
  named : ∀ e ∈ tree.entries, e.1 ≠ [] ∧ ∀ part ∈ e.1, part ≠ "" ∧ '/' ∉ part.toList
  resolves : (∀ e ∈ tree.entries, e.2 ≠ .link) → ∀ e ∈ tree.entries, place (asPosix e.1) = .inside

def truncate (x : ℚ) : ℤ := if 0 ≤ x then ⌊x⌋ else ⌈x⌉

variable (lib : Libraries) (b : Backup)

/-- `int(value)`. -/
def int : PyValue → Except Escape ℤ
  | .scalar (.bool b) => .ok (if b then 1 else 0)
  | .scalar (.int i) => .ok i
  | .scalar (.float (.finite x)) => .ok (truncate x)
  | .scalar (.float (.infinity _)) => .error .overflowError
  | .scalar (.float (.nan _)) => .error .valueError
  | .scalar (.str s) =>
    if lib.maxDigits < (s.toList.filter fun c => (Integers.decimal c).isSome).length then .error .valueError
    else match Integers.int s.toList with
      | some i => .ok i
      | none => .error .valueError
  | _ => .error .typeError

/-- `str(value)`. -/
def text : PyValue → String
  | .scalar (.str s) => s
  | v => lib.str v

/-- The path of a record, if it is not refused. -/
def safePath (fields : Fields) : Option String :=
  match lookup fields "path" with
  | .scalar (.str relative) => if relative = "" ∨ relative.toList.head? = some '/' then none else some relative
  | _ => none

def sizeBytes (fields : Fields) : PyValue := (fields.get "size_bytes").getD (.scalar (.int (-1)))

def digest (fields : Fields) : PyValue := (fields.get "sha256").getD (.scalar (.str ""))

/-- One record of the manifest. -/
def readRecord (item : PyValue) : Except Raised (String × ℤ × String) :=
  match item with
  | .dict fields =>
    match safePath fields with
    | none => .error (.backupError "backup manifest contains an unsafe path")
    | some relative =>
      match b.place relative with
      | .raised e => .error (.escape e)
      | .outside => .error (.backupError "backup manifest path escapes the backup directory")
      | .inside =>
        match int lib (sizeBytes fields) with
        | .error e => .error (.escape e)
        | .ok size => .ok (relative, size, text lib (digest fields))
  | _ => .error (.backupError "backup manifest contains an invalid file record")

def expectedFiles : List PyValue → Dict String (ℤ × String) → Except Raised (Dict String (ℤ × String))
  | [], expected => .ok expected
  | item :: rest, expected =>
    match readRecord lib b item with
    | .error e => .error e
    | .ok (relative, record) => expectedFiles rest (expected.set relative record)

def checkFiles (expected : Dict String (ℤ × String)) : List (Path × Bytes) → Except Raised Unit
  | [] => .ok ()
  | (path, bytes) :: rest =>
    if expected.get (asPosix path) = some ((bytes.length : ℤ), lib.sha256 bytes) then checkFiles expected rest
    else .error (.backupError ("backup integrity check failed for " ++ asPosix path))

def checkDatabase : Except Raised Unit :=
  match b.tree.entries.get ["automl.db"] with
  | some (.file database) =>
    match lib.quickCheck database with
    | .error e => .error (.escape e)
    | .ok row => if row = some "ok" then .ok () else .error (.backupError "backup SQLite database failed quick_check")
  | _ => .error (.backupError "backup does not contain automl.db")

/-- The part from the records on. -/
def checkItems (items : List PyValue) : Except Raised Unit :=
  match expectedFiles lib b items [] with
  | .error e => .error e
  | .ok expected =>
    match regularFiles b.tree.entries with
    | .error _ => .error (.backupError "backup content must not contain symbolic links")
    | .ok actual =>
      let names := actual.map fun f => asPosix f.1
      if (∀ name ∈ names, name ∈ expected.map Prod.fst) ∧ ∀ name ∈ expected.map Prod.fst, name ∈ names then
        match checkFiles lib expected actual with
        | .error e => .error e
        | .ok () => checkDatabase lib b
      else .error (.backupError "backup file set does not match the manifest")

def checkManifest (manifest : Fields) : Except Raised Fields :=
  if (lookup manifest "schema_version").eq (.scalar (.int 1)) then
    match lookup manifest "files" with
    | .list items => (checkItems lib b items).map fun _ => manifest
    | _ => .error (.backupError "backup manifest schema is unsupported")
  else .error (.backupError "backup manifest schema is unsupported")

/-- `verify_backup`, of a directory if it is one. -/
def verifyBackup : Option Backup → Except Raised Fields
  | none => .error (.backupError "backup manifest is missing")
  | some b =>
    match b.tree.entries.get [manifestName] with
    | some (.file bytes) =>
      match lib.decode bytes with
      | none => .error (.escape .unicodeDecodeError)
      | some text =>
        match lib.loads text with
        | .malformed => .error (.backupError "backup manifest is invalid")
        | .raised e => .error (.escape e)
        | .value (.dict manifest) => checkManifest lib b manifest
        | .value _ => .error (.escape .attributeError)
    | _ => .error (.backupError "backup manifest is missing")

/-! ### Manifests of their types -/

section Typed

/-- The value of a record, whose fields have their types. -/
def RecordOf : Option FileRecord → PyValue → Prop
  | none, item => ∀ fields, item ≠ .dict fields
  | some record, item => ∃ fields : Fields, item = .dict fields ∧
      (∀ relative, record.path = some relative ↔ lookup fields "path" = .scalar (.str relative)) ∧
      sizeBytes fields = .scalar (.int record.sizeBytes) ∧ digest fields = .scalar (.str record.sha256)

/-- The value of a manifest. -/
structure ManifestOf (manifest : Manifest) (fields : Fields) : Prop where
  schemaVersion : lookup fields "schema_version" = .scalar (.int manifest.schemaVersion)
  unlisted : manifest.files = none → ∀ items, lookup fields "files" ≠ .list items
  listed : ∀ files, manifest.files = some files → ∃ items, lookup fields "files" = .list items ∧ List.Forall₂ RecordOf files items

/-- What the libraries make of the files of a backup below `root` whose manifest has its types. -/
structure Typed (simple : Backups.Libraries) (root : Path) : Prop where
  sha256 : simple.sha256 = lib.sha256
  malformed : ∀ bytes, simple.loads bytes = none → ∃ text, lib.decode bytes = some text ∧ lib.loads text = .malformed
  loads : ∀ bytes manifest, simple.loads bytes = some manifest →
    ∃ text fields, lib.decode bytes = some text ∧ lib.loads text = .value (.dict fields) ∧ ManifestOf manifest fields
  quickCheck : ∀ database, ∃ row, lib.quickCheck database = .ok row ∧ simple.quickCheck database = decide (row = some "ok")
  place : ∀ relative, b.place relative = if root <+: resolve root relative then .inside else .outside

def raised : Failure → Raised
  | .backupError text => .backupError text
  -- no directory is read that is not there
  | .osError => .escape .databaseError

variable {lib b} {simple : Backups.Libraries} {root : Path}

theorem expectedFiles_typed (h : Typed lib b simple root) {files : List (Option FileRecord)} {items : List PyValue}
    (hfiles : List.Forall₂ RecordOf files items) (expected : Dict String (ℤ × String)) :
    expectedFiles lib b items expected = (Backups.expectedFiles root files expected).mapError raised := by
  induction hfiles generalizing expected with
  | nil => rfl
  | @cons file item files items hitem _ ih =>
    cases file with
    | none =>
      have hread : readRecord lib b item = .error (.backupError "backup manifest contains an invalid file record") := by
        cases item with
        | dict fields => exact absurd rfl (hitem fields)
        | _ => rfl
      rw [expectedFiles, hread]
      rfl
    | some record =>
      obtain ⟨fields, rfl, hpath, hsize, hdigest⟩ := hitem
      rw [expectedFiles, Backups.expectedFiles]
      cases hrecord : record.path with
      | none =>
        have hunsafe : safePath fields = none := by
          unfold safePath
          split
          · next relative hlookup =>
            rw [(hpath relative).mpr hlookup] at hrecord
            cases hrecord
          · rfl
        simp only [readRecord, hunsafe]
        rfl
      | some relative =>
        have hsafe : safePath fields =
            if relative = "" ∨ relative.toList.head? = some '/' then none else some relative := by
          rw [safePath, (hpath relative).mp hrecord]
        dsimp only
        by_cases hrefused : relative = "" ∨ relative.toList.head? = some '/'
        · rw [if_pos hrefused] at hsafe ⊢
          simp only [readRecord, hsafe]
          rfl
        · rw [if_neg hrefused] at hsafe ⊢
          by_cases hinside : root <+: resolve root relative
          · have hread : readRecord lib b (.dict fields) = .ok (relative, record.sizeBytes, record.sha256) := by
              simp only [readRecord, hsafe, h.place, if_pos hinside, hsize, hdigest]
              rfl
            rw [hread, if_neg (not_not.mpr hinside)]
            exact ih _
          · rw [if_pos hinside]
            simp only [readRecord, hsafe, h.place, if_neg hinside]
            rfl

theorem checkFiles_typed (h : Typed lib b simple root) (expected : Dict String (ℤ × String)) (files : List (Path × Bytes)) :
    checkFiles lib expected files = (Backups.checkFiles simple expected files).mapError raised := by
  induction files with
  | nil => rfl
  | cons f files ih =>
    obtain ⟨path, bytes⟩ := f
    rw [checkFiles, Backups.checkFiles, h.sha256]
    split
    · exact ih
    · rfl

theorem error_of_regularFiles {entries : Listing} {e : Failure} (h : regularFiles entries = .error e) :
    e = .backupError "backup content must not contain symbolic links" := by
  unfold regularFiles at h
  split at h
  · exact (Except.error.inj h).symm
  · cases h

theorem checkDatabase_file (h : Typed lib b simple root) {database : Bytes}
    (hget : b.tree.entries.get ["automl.db"] = some (.file database)) :
    checkDatabase lib b = (refuse (.backupError "backup SQLite database failed quick_check")
      (simple.quickCheck database = false)).mapError raised := by
  obtain ⟨row, hrow, hquick⟩ := h.quickCheck database
  simp only [checkDatabase, hget, hrow, hquick]
  by_cases hok : row = some "ok"
  · rw [if_pos hok, refuse, if_neg (by simpa using hok)]
    rfl
  · rw [if_neg hok, refuse, if_pos (by simpa using hok)]
    rfl

/-- On such a backup the check is that of the backups that the service makes. -/
theorem verifyBackup_typed (h : Typed lib b simple root) :
    (verifyBackup lib (some b)).map (fun _ => ()) =
      ((Backups.verifyBackup simple root b.tree.entries).map fun _ => ()).mapError raised := by
  cases hget : b.tree.entries.get [manifestName] with
  | none =>
    simp only [verifyBackup, Backups.verifyBackup, hget]
    rfl
  | some leaf =>
    cases leaf with
    | folder | link =>
      simp only [verifyBackup, Backups.verifyBackup, hget]
      rfl
    | file bytes =>
      simp only [verifyBackup, Backups.verifyBackup, hget]
      cases hloads : simple.loads bytes with
      | none =>
        obtain ⟨text, hdecode, hmalformed⟩ := h.malformed bytes hloads
        simp only [hdecode, hmalformed]
        rfl
      | some manifest =>
        obtain ⟨text, fields, hdecode, hvalue, hmanifest⟩ := h.loads bytes manifest hloads
        simp only [hdecode, hvalue, checkManifest, hmanifest.schemaVersion]
        have hversion : (PyValue.scalar (.int manifest.schemaVersion)).eq (.scalar (.int 1)) = true ↔
            manifest.schemaVersion = 1 := by
          simp [PyValue.eq, PyScalar.eq, PyScalar.eqNumbers, PyScalar.number, PyFloat.eq]
        cases hfiles : manifest.files with
        | none =>
          have hnone := hmanifest.unlisted hfiles
          dsimp only
          split
          · split
            · next items hitems => exact absurd hitems (hnone items)
            · rfl
          · rfl
        | some files =>
          obtain ⟨items, hitems, hall⟩ := hmanifest.listed files hfiles
          dsimp only
          rw [hitems]
          by_cases hone : manifest.schemaVersion = 1
          · rw [if_pos (hversion.mpr hone), refuse, if_neg (not_not.mpr hone), except_ok_bind]
            dsimp only [checkItems]
            rw [expectedFiles_typed h hall]
            cases Backups.expectedFiles root files [] with
            | error e => rfl
            | ok expected =>
              rw [except_ok_bind]
              dsimp only [Except.mapError]
              cases hregular : regularFiles b.tree.entries with
              | error e =>
                rw [error_of_regularFiles hregular]
                rfl
              | ok actual =>
                rw [except_ok_bind]
                dsimp only
                by_cases hset : (∀ name ∈ actual.map fun f => asPosix f.1, name ∈ expected.map Prod.fst) ∧
                    ∀ name ∈ expected.map Prod.fst, name ∈ actual.map fun f => asPosix f.1
                · rw [if_pos hset, refuse, if_neg (not_not.mpr hset), except_ok_bind, checkFiles_typed h]
                  cases Backups.checkFiles simple expected actual with
                  | error e => rfl
                  | ok u =>
                    cases hdatabase : b.tree.entries.get ["automl.db"] with
                    | none =>
                      simp only [Except.mapError, checkDatabase, hdatabase]
                      rfl
                    | some leaf =>
                      cases leaf with
                      | folder | link =>
                        simp only [Except.mapError, checkDatabase, hdatabase]
                        rfl
                      | file database =>
                        simp only [Except.mapError, checkDatabase_file h hdatabase]
                        cases refuse (Failure.backupError "backup SQLite database failed quick_check")
                          (simple.quickCheck database = false) <;> rfl
                · rw [if_neg hset, refuse, if_pos hset]
                  rfl
          · rw [if_neg (mt hversion.mp hone), refuse, if_pos hone]
            rfl

end Typed

/-! ### What is to be accepted -/

/-- The regular files but the manifest. -/
def content (t : Tree) : List (Path × Bytes) :=
  t.entries.filterMap fun e =>
    match e.2 with
    | .file bytes => if e.1 = [manifestName] then none else some (e.1, bytes)
    | _ => none

/-- The record names the file, with its size as a number and with its digest. -/
def Truthful (item : PyValue) (f : Path × Bytes) : Prop :=
  ∃ fields : Fields, item = .dict fields ∧ lookup fields "path" = .scalar (.str (asPosix f.1)) ∧
    (fields.get "size_bytes" = some (.scalar (.int f.2.length)) ∨
      fields.get "size_bytes" = some (.scalar (.float (.finite f.2.length)))) ∧
    fields.get "sha256" = some (.scalar (.str (lib.sha256 f.2)))

/-- The records are those of the files. -/
structure Lists (items : List PyValue) (files : List (Path × Bytes)) : Prop where
  true_of : ∀ item ∈ items, ∃ f ∈ files, Truthful lib item f
  listed : ∀ f ∈ files, ∃ item ∈ items, Truthful lib item f

/-- The manifest is a supported object, with these records. -/
def Supported (items : List PyValue) : Prop :=
  ∃ bytes text manifest, b.tree.entries.get [manifestName] = some (.file bytes) ∧ lib.decode bytes = some text ∧
    lib.loads text = .value (.dict manifest) ∧ (lookup manifest "schema_version").eq (.scalar (.int 1)) ∧
    lookup manifest "files" = .list items

def Linkless : Prop := ∀ e ∈ b.tree.entries, e.2 ≠ .link

/-- `automl.db` passes the check of SQLite. -/
def Healthy : Prop := ∃ database, b.tree.entries.get ["automl.db"] = some (.file database) ∧
  lib.quickCheck database = .ok (some "ok")

/-- What `verify_backup` is to accept. -/
def Intact (d : Option Backup) : Prop :=
  ∃ b items, d = some b ∧ Supported lib b items ∧ Linkless b ∧ Lists lib items (content b.tree) ∧ Healthy lib b

/-- It returns where the backup is intact, and raises `BackupError` where it is not. -/
def Detects (d : Option Backup) : Prop :=
  match verifyBackup lib d with
  | .ok _ => Intact lib d
  | .error (.backupError _) => ¬ Intact lib d
  | .error (.escape _) => False

/-! ### Where it is exact -/

/-- The record is no object, has no safe path, or a path that leads out of the directory. -/
def Refused (item : PyValue) : Prop :=
  ∀ fields relative, item = .dict fields → safePath fields = some relative → b.place relative = .outside

/-- The record can be read, as this path, size and digest. -/
def Reads (item : PyValue) (record : String × ℤ × String) : Prop :=
  ∃ fields : Fields, item = .dict fields ∧ safePath fields = some record.1 ∧ b.place record.1 = .inside ∧
    int lib (sizeBytes fields) = .ok record.2.1 ∧ text lib (digest fields) = record.2.2

/-- The records can be read, up to the first that is refused. -/
def Orderly : List PyValue → Prop
  | [] => True
  | item :: rest => Refused b item ∨ (∃ record, Reads lib b item record) ∧ Orderly rest

/-- The files that are compared: those that are not called like the manifest. -/
def visible (t : Tree) : List (Path × Bytes) := (content t).filter fun f => f.1.getLast? ≠ some manifestName

/-- The last record of the path has this size and this digest. -/
def LastReads (items : List PyValue) (path : String) (record : ℤ × String) : Prop :=
  ∃ before item after, items = before ++ item :: after ∧ Reads lib b item (path, record) ∧
    ∀ item' ∈ after, ∀ record', ¬ Reads lib b item' (path, record')

/-- The records can be read and name just these files, and the last record of each has its size
and its digest. -/
structure Matches (items : List PyValue) (files : List (Path × Bytes)) : Prop where
  reads : ∀ item ∈ items, ∃ f ∈ files, ∃ record, Reads lib b item (asPosix f.1, record)
  last : ∀ f ∈ files, LastReads lib b items (asPosix f.1) (f.2.length, lib.sha256 f.2)

/-- The size of the record is the number that `int()` makes of it, and its digest a string. -/
def Plain (item : PyValue) : Prop :=
  ∀ fields : Fields, item = .dict fields → (∃ size : ℤ, fields.get "size_bytes" = some (.scalar (.int size)) ∨
    fields.get "size_bytes" = some (.scalar (.float (.finite size)))) ∧
    ∃ digest, fields.get "sha256" = some (.scalar (.str digest))

/-- Records of one path are read as the same. -/
def Agree (items : List PyValue) : Prop :=
  ∀ item ∈ items, ∀ item' ∈ items, ∀ path record record', Reads lib b item (path, record) →
    Reads lib b item' (path, record') → record = record'

/-- The manifest, if it is there, is text that `json.loads` refuses or reads as an object. -/
def ReadsObject : Prop :=
  ∀ bytes, b.tree.entries.get [manifestName] = some (.file bytes) → ∃ text, lib.decode bytes = some text ∧
    (lib.loads text = .malformed ∨ ∃ manifest, lib.loads text = .value (.dict manifest))

/-- Where the check does what it is to do. -/
structure Regular (b : Backup) : Prop where
  object : ReadsObject lib b
  orderly : ∀ items, Supported lib b items → Orderly lib b items
  /-- SQLite answers, where it is asked. -/
  answers : ∀ items database, Supported lib b items → Linkless b → Matches lib b items (visible b.tree) →
    b.tree.entries.get ["automl.db"] = some (.file database) → ∃ row, lib.quickCheck database = .ok row
  /-- A file below the top is called like the manifest only where the rest does not match either. -/
  nested : ∀ items, Supported lib b items → Linkless b → Healthy lib b → visible b.tree ≠ content b.tree →
    ¬ Matches lib b items (visible b.tree) ∧ ¬ Lists lib items (content b.tree)
  plain : ∀ items, Supported lib b items → Linkless b → Healthy lib b → visible b.tree = content b.tree →
    Matches lib b items (content b.tree) → (∀ item ∈ items, Plain item) ∧ Agree lib b items

/-! ### Records -/

section Records

variable {lib b}

theorem readRecord_eq_ok {item : PyValue} {record : String × ℤ × String} :
    readRecord lib b item = .ok record ↔ Reads lib b item record := by
  obtain ⟨path, size, dig⟩ := record
  constructor
  · intro h
    unfold readRecord at h
    split at h
    · rename_i fields
      split at h
      · cases h
      · rename_i relative hpath
        split at h
        · cases h
        · cases h
        · rename_i hplace
          split at h
          · cases h
          · rename_i size' hsize
            cases h
            exact ⟨fields, rfl, hpath, hplace, hsize, rfl⟩
    · cases h
  · rintro ⟨fields, rfl, hpath, hplace, hsize, rfl⟩
    simp only [readRecord, hpath, hplace, hsize]

theorem readRecord_eq_backupError {item : PyValue} :
    (∃ text, readRecord lib b item = .error (.backupError text)) ↔ Refused b item := by
  constructor
  · rintro ⟨text, h⟩ fields relative rfl hpath
    simp only [readRecord, hpath] at h
    split at h
    · cases h
    · assumption
    · split at h <;> cases h
  · intro h
    unfold readRecord
    split
    · rename_i fields
      cases hpath : safePath fields with
      | none => exact ⟨_, rfl⟩
      | some relative =>
        simp only [h fields relative rfl hpath]
        exact ⟨_, rfl⟩
    · exact ⟨_, rfl⟩

theorem reads_unique {item : PyValue} {record record' : String × ℤ × String} (h : Reads lib b item record)
    (h' : Reads lib b item record') : record = record' :=
  Except.ok.inj ((readRecord_eq_ok.mpr h).symm.trans (readRecord_eq_ok.mpr h'))

theorem not_refused_of_reads {item : PyValue} {record : String × ℤ × String} (h : Reads lib b item record) :
    ¬ Refused b item := by
  intro hrefused
  obtain ⟨text, htext⟩ := readRecord_eq_backupError.mpr hrefused
  cases (readRecord_eq_ok.mpr h).symm.trans htext

theorem lastReads_cons {item : PyValue} {rest : List PyValue} {path : String} {record : ℤ × String} :
    LastReads lib b (item :: rest) path record ↔ LastReads lib b rest path record ∨
      Reads lib b item (path, record) ∧ ∀ item' ∈ rest, ∀ record', ¬ Reads lib b item' (path, record') := by
  constructor
  · rintro ⟨before, item', after, heq, hreads, hafter⟩
    cases before with
    | nil =>
      cases heq
      exact .inr ⟨hreads, hafter⟩
    | cons _ before =>
      cases heq
      exact .inl ⟨before, item', after, rfl, hreads, hafter⟩
  · rintro (⟨before, item', after, rfl, hreads, hafter⟩ | ⟨hreads, hafter⟩)
    · exact ⟨item :: before, item', after, rfl, hreads, hafter⟩
    · exact ⟨[], item, rest, rfl, hreads, hafter⟩

theorem LastReads.mem {items : List PyValue} {path : String} {record : ℤ × String}
    (h : LastReads lib b items path record) : ∃ item ∈ items, Reads lib b item (path, record) := by
  obtain ⟨before, item, after, rfl, hreads, -⟩ := h
  exact ⟨item, List.mem_append_right _ List.mem_cons_self, hreads⟩

/-- A path that a record has has a last record. -/
theorem exists_lastReads {items : List PyValue} {item : PyValue} {path : String} {record : ℤ × String}
    (hitem : item ∈ items) (h : Reads lib b item (path, record)) : ∃ record', LastReads lib b items path record' := by
  induction items generalizing item record with
  | nil => cases hitem
  | cons first rest ih =>
    by_cases hrest : ∃ item' ∈ rest, ∃ record', Reads lib b item' (path, record')
    · obtain ⟨item', hitem', record', hreads⟩ := hrest
      obtain ⟨record'', hlast⟩ := ih hitem' hreads
      exact ⟨record'', lastReads_cons.mpr (.inl hlast)⟩
    · push Not at hrest
      rcases List.mem_cons.mp hitem with rfl | hitem
      · exact ⟨record, lastReads_cons.mpr (.inr ⟨h, hrest⟩)⟩
      · exact absurd h (hrest item hitem record)

/-- The records are read into a table of the last ones. -/
theorem expectedFiles_eq_ok {items : List PyValue} {expected expected' : Dict String (ℤ × String)}
    (h : expectedFiles lib b items expected = .ok expected') :
    (∀ item ∈ items, ∃ record, Reads lib b item record) ∧ ∀ path record, expected'.get path = some record ↔
      LastReads lib b items path record ∨
        (∀ item ∈ items, ∀ record', ¬ Reads lib b item (path, record')) ∧ expected.get path = some record := by
  induction items generalizing expected with
  | nil =>
    cases h
    refine ⟨fun item hitem => absurd hitem List.not_mem_nil, fun path record => ⟨fun hget => .inr ⟨?_, hget⟩, ?_⟩⟩
    · exact fun item hitem => absurd hitem List.not_mem_nil
    · rintro (⟨before, item, after, heq, -⟩ | ⟨-, hget⟩)
      · cases before <;> cases heq
      · exact hget
  | cons item rest ih =>
    unfold expectedFiles at h
    split at h
    · cases h
    · rename_i relative record hread
      have hreads := readRecord_eq_ok.mp hread
      obtain ⟨hall, hget⟩ := ih h
      refine ⟨List.forall_mem_cons.mpr ⟨⟨_, hreads⟩, hall⟩, fun path record' => ?_⟩
      rw [hget, lastReads_cons, List.forall_mem_cons, Dict.get_set]
      by_cases hpath : path = relative
      · subst hpath
        have hself : ∀ record'', Reads lib b item (path, record'') ↔ record = record'' := fun record'' =>
          ⟨fun h'' => (Prod.ext_iff.mp (reads_unique hreads h'')).2, fun heq => heq ▸ hreads⟩
        simp only [if_true, Option.some.injEq, hself]
        have hnot : ¬ ∀ record'', ¬ record = record'' := fun hnone => hnone record rfl
        tauto
      · have hother : ∀ record'', ¬ Reads lib b item (path, record'') := fun record'' h'' =>
          hpath (Prod.ext_iff.mp (reads_unique hreads h'')).1.symm
        simp only [hpath, if_false, hother, not_false_eq_true, implies_true, true_and, false_and, or_false]

theorem expectedFiles_isOk {items : List PyValue} (h : ∀ item ∈ items, ∃ record, Reads lib b item record)
    (expected : Dict String (ℤ × String)) : ∃ expected', expectedFiles lib b items expected = .ok expected' := by
  induction items generalizing expected with
  | nil => exact ⟨expected, rfl⟩
  | cons item rest ih =>
    obtain ⟨⟨⟨relative, record⟩, hreads⟩, hrest⟩ := List.forall_mem_cons.mp h
    obtain ⟨expected', hexpected⟩ := ih hrest (expected.set relative record)
    exact ⟨expected', by rw [expectedFiles, readRecord_eq_ok.mpr hreads]; exact hexpected⟩

/-- Reading the records raises nothing else where they are in order. -/
theorem orderly_iff (lib : Libraries) (b : Backup) {items : List PyValue} (expected : Dict String (ℤ × String)) :
    Orderly lib b items ↔ ∀ e, expectedFiles lib b items expected ≠ .error (.escape e) := by
  induction items generalizing expected with
  | nil => exact ⟨fun _ e h => (nomatch h), fun _ => trivial⟩
  | cons item rest ih =>
    unfold Orderly expectedFiles
    cases hread : readRecord lib b item with
    | ok record =>
      have hreads := readRecord_eq_ok.mp hread
      have hrefused := not_refused_of_reads hreads
      simp only [hrefused, false_or]
      rw [← ih]
      exact ⟨And.right, fun h => ⟨⟨record, hreads⟩, h⟩⟩
    | error e =>
      cases e with
      | backupError text =>
        have hrefused := readRecord_eq_backupError.mp ⟨text, hread⟩
        exact ⟨fun _ e h => (nomatch h), fun _ => .inl hrefused⟩
      | escape e =>
        refine ⟨fun h => ?_, fun h => absurd rfl (h e)⟩
        rcases h with hrefused | ⟨⟨record, hreads⟩, -⟩
        · obtain ⟨text, htext⟩ := readRecord_eq_backupError.mpr hrefused
          cases hread.symm.trans htext
        · cases hread.symm.trans (readRecord_eq_ok.mpr hreads)

/-! ### Files -/

theorem mem_content {t : Tree} {f : Path × Bytes} :
    f ∈ content t ↔ (f.1, Leaf.file f.2) ∈ t.entries ∧ f.1 ≠ [manifestName] := by
  obtain ⟨path, bytes⟩ := f
  unfold content
  rw [List.mem_filterMap]
  constructor
  · rintro ⟨⟨path', leaf⟩, he, h⟩
    dsimp only at h
    split at h
    · split_ifs at h with hpath
      cases h
      exact ⟨he, hpath⟩
    · cases h
  · rintro ⟨he, hpath⟩
    exact ⟨_, he, if_neg hpath⟩

theorem mem_visible {t : Tree} {f : Path × Bytes} :
    f ∈ visible t ↔ (f.1, Leaf.file f.2) ∈ t.entries ∧ f.1.getLast? ≠ some manifestName := by
  unfold visible
  rw [List.mem_filter, mem_content, decide_eq_true_eq]
  refine ⟨fun h => ⟨h.1.1, h.2⟩, fun h => ⟨⟨h.1, ?_⟩, h.2⟩⟩
  intro hpath
  rw [hpath] at h
  exact h.2 rfl

theorem regularFiles_mem {entries : Listing} {files : List (Path × Bytes)} (h : regularFiles entries = .ok files)
    {f : Path × Bytes} : f ∈ files ↔ (f.1, Leaf.file f.2) ∈ entries ∧ f.1.getLast? ≠ some manifestName := by
  obtain ⟨path, bytes⟩ := f
  unfold regularFiles at h
  split at h
  · cases h
  · cases h
    rw [List.mem_insertionSort, List.mem_filterMap]
    constructor
    · rintro ⟨⟨path', leaf⟩, he, h⟩
      dsimp only at h
      split at h
      · split_ifs at h with hpath
        cases h
        exact ⟨he, hpath⟩
      · cases h
    · rintro ⟨he, hpath⟩
      exact ⟨_, he, if_neg hpath⟩

theorem regularFiles_isOk : (∃ files, regularFiles b.tree.entries = .ok files) ↔ Linkless b := by
  constructor
  · rintro ⟨files, h⟩ e he
    exact not_link_of_regularFiles h he
  · intro h
    refine ⟨_, if_neg ?_⟩
    rw [List.any_eq_true]
    rintro ⟨e, he, hlink⟩
    exact h e he (of_decide_eq_true hlink)

theorem checkFiles_eq_ok {expected : Dict String (ℤ × String)} {files : List (Path × Bytes)} :
    checkFiles lib expected files = .ok () ↔
      ∀ f ∈ files, expected.get (asPosix f.1) = some ((f.2.length : ℤ), lib.sha256 f.2) := by
  induction files with
  | nil => exact ⟨fun _ f hf => absurd hf List.not_mem_nil, fun _ => rfl⟩
  | cons f files ih =>
    obtain ⟨path, bytes⟩ := f
    rw [List.forall_mem_cons, ← ih, checkFiles]
    split
    · rename_i hget
      exact ⟨fun h => ⟨hget, h⟩, fun h => h.2⟩
    · rename_i hget
      exact ⟨fun h => (nomatch h), fun h => absurd h.1 hget⟩

theorem checkFiles_eq_error {expected : Dict String (ℤ × String)} {files : List (Path × Bytes)} {e : Raised}
    (h : checkFiles lib expected files = .error e) : ∃ text, e = .backupError text := by
  induction files with
  | nil => cases h
  | cons f files ih =>
    obtain ⟨path, bytes⟩ := f
    unfold checkFiles at h
    split at h
    · exact ih h
    · cases h
      exact ⟨_, rfl⟩

/-- What the comparison of the files finds. -/
theorem matches_iff {items : List PyValue} {expected : Dict String (ℤ × String)} {files : List (Path × Bytes)}
    (h : expectedFiles lib b items [] = .ok expected) (hfiles : ∀ f, f ∈ files ↔ f ∈ visible b.tree) :
    Matches lib b items (visible b.tree) ↔
      ((∀ name ∈ files.map fun f => asPosix f.1, name ∈ expected.map Prod.fst) ∧
        ∀ name ∈ expected.map Prod.fst, name ∈ files.map fun f => asPosix f.1) ∧
      checkFiles lib expected files = .ok () := by
  obtain ⟨hall, hget⟩ := expectedFiles_eq_ok h
  have hlast : ∀ path record, expected.get path = some record ↔ LastReads lib b items path record := by
    intro path record
    rw [hget, Dict.get_nil]
    simp
  have hkey : ∀ path, path ∈ expected.map Prod.fst ↔ ∃ record, LastReads lib b items path record := by
    intro path
    rw [← Dict.isSome_get, Option.isSome_iff_exists]
    exact exists_congr fun record => hlast path record
  rw [checkFiles_eq_ok]
  constructor
  · intro hm
    refine ⟨⟨fun name hname => ?_, fun name hname => ?_⟩, fun f hf => (hlast _ _).mpr (hm.last f ((hfiles f).mp hf))⟩
    · obtain ⟨f, hf, rfl⟩ := List.mem_map.mp hname
      exact (hkey _).mpr ⟨_, hm.last f ((hfiles f).mp hf)⟩
    · obtain ⟨record, hrecord⟩ := (hkey name).mp hname
      obtain ⟨item, hitem, hreads⟩ := hrecord.mem
      obtain ⟨f, hf, record', hreads'⟩ := hm.reads item hitem
      have heq := reads_unique hreads hreads'
      exact List.mem_map.mpr ⟨f, (hfiles f).mpr hf, (Prod.ext_iff.mp heq).1.symm⟩
  · rintro ⟨⟨-, hnames⟩, hsame⟩
    refine ⟨fun item hitem => ?_, fun f hf => (hlast _ _).mp (hsame f ((hfiles f).mpr hf))⟩
    obtain ⟨⟨path, record⟩, hreads⟩ := hall item hitem
    obtain ⟨f, hf, rfl⟩ := List.mem_map.mp (hnames path ((hkey path).mpr (exists_lastReads hitem hreads)))
    exact ⟨f, (hfiles f).mp hf, record, hreads⟩

/-! ### What the check raises -/

theorem checkDatabase_eq_ok : checkDatabase lib b = .ok () ↔ Healthy lib b := by
  constructor
  · intro h
    unfold checkDatabase at h
    split at h
    · rename_i database hdatabase
      split at h
      · cases h
      · rename_i row hrow
        split_ifs at h with hok
        exact ⟨database, hdatabase, hok ▸ hrow⟩
    · cases h
  · rintro ⟨database, hdatabase, hrow⟩
    simp only [checkDatabase, hdatabase, hrow, if_true]

/-- SQLite raises where it is asked. -/
def Unanswered (lib : Libraries) (b : Backup) : Prop :=
  ∃ database e, b.tree.entries.get ["automl.db"] = some (.file database) ∧ lib.quickCheck database = .error e

theorem checkDatabase_escapes : (∃ e, checkDatabase lib b = .error (.escape e)) ↔ Unanswered lib b := by
  constructor
  · rintro ⟨e, h⟩
    unfold checkDatabase at h
    split at h
    · rename_i database hdatabase
      split at h
      · rename_i e' hrow
        exact ⟨database, e', hdatabase, hrow⟩
      · split_ifs at h
        cases h
    · cases h
  · rintro ⟨database, e, hdatabase, hrow⟩
    exact ⟨e, by simp only [checkDatabase, hdatabase, hrow]⟩

theorem Matches.all_read {items : List PyValue} {files : List (Path × Bytes)} (h : Matches lib b items files) :
    ∀ item ∈ items, ∃ record, Reads lib b item record := fun item hitem => by
  obtain ⟨f, -, record, hreads⟩ := h.reads item hitem
  exact ⟨_, hreads⟩

/-- The check of the records: they are refused or raise; or there is a link; or the files do not
match; or all depends on the database. -/
theorem checkItems_cases (lib : Libraries) (b : Backup) (items : List PyValue) :
    (¬ Orderly lib b items ∧ ∃ e, checkItems lib b items = .error (.escape e)) ∨
      Orderly lib b items ∧ ((Linkless b ∧ Matches lib b items (visible b.tree) ∧
          checkItems lib b items = checkDatabase lib b) ∨
        ¬ (Linkless b ∧ Matches lib b items (visible b.tree)) ∧
          ∃ text, checkItems lib b items = .error (.backupError text)) := by
  have horderly : Orderly lib b items ↔ _ := orderly_iff lib b []
  unfold checkItems
  cases hexpected : expectedFiles lib b items [] with
  | error e =>
    have hmatches : ¬ Matches lib b items (visible b.tree) := by
      intro hm
      obtain ⟨expected, hok⟩ := expectedFiles_isOk hm.all_read []
      cases hexpected.symm.trans hok
    cases e with
    | escape e => exact .inl ⟨fun h => horderly.mp h e hexpected, e, rfl⟩
    | backupError text =>
      refine .inr ⟨horderly.mpr fun e h => ?_, .inr ⟨fun h => hmatches h.2, text, rfl⟩⟩
      cases hexpected.symm.trans h
  | ok expected =>
    refine .inr ⟨horderly.mpr fun e h => ?_, ?_⟩
    · cases hexpected.symm.trans h
    · dsimp only
      cases hfiles : regularFiles b.tree.entries with
      | error e =>
        refine .inr ⟨fun h => ?_, _, rfl⟩
        obtain ⟨files, hok⟩ := regularFiles_isOk.mpr h.1
        cases hfiles.symm.trans hok
      | ok files =>
        have hlink : Linkless b := regularFiles_isOk.mp ⟨files, hfiles⟩
        have hiff := matches_iff hexpected fun f => (regularFiles_mem hfiles).trans mem_visible.symm
        dsimp only
        split
        · rename_i hnames
          cases hcheck : checkFiles lib expected files with
          | error e =>
            obtain ⟨text, rfl⟩ := checkFiles_eq_error hcheck
            refine .inr ⟨fun h => ?_, text, rfl⟩
            cases hcheck.symm.trans (hiff.mp h.2).2
          | ok => exact .inl ⟨hlink, hiff.mpr ⟨hnames, hcheck⟩, rfl⟩
        · rename_i hnames
          exact .inr ⟨fun h => hnames (hiff.mp h.2).1, _, rfl⟩

theorem supported_unique {items items' : List PyValue} (h : Supported lib b items) (h' : Supported lib b items') :
    items = items' := by
  obtain ⟨bytes, text, manifest, hget, hdecode, hloads, -, hitems⟩ := h
  obtain ⟨bytes', text', manifest', hget', hdecode', hloads', -, hitems'⟩ := h'
  cases hget.symm.trans hget'
  cases hdecode.symm.trans hdecode'
  cases hloads.symm.trans hloads'
  cases hitems.symm.trans hitems'
  rfl

/-- A manifest is no object, is not supported, or has records that are checked. -/
theorem verifyBackup_cases (lib : Libraries) (b : Backup) :
    (¬ ReadsObject lib b ∧ (∀ items, ¬ Supported lib b items) ∧ ∃ e, verifyBackup lib (some b) = .error (.escape e)) ∨
      ReadsObject lib b ∧ (((∀ items, ¬ Supported lib b items) ∧
          ∃ text, verifyBackup lib (some b) = .error (.backupError text)) ∨
        ∃ items manifest, Supported lib b items ∧
          verifyBackup lib (some b) = (checkItems lib b items).map fun _ => manifest) := by
  by_cases hobject : ReadsObject lib b
  · refine .inr ⟨hobject, ?_⟩
    by_cases hfile : ∃ bytes, b.tree.entries.get [manifestName] = some (.file bytes)
    · obtain ⟨bytes, hget⟩ := hfile
      obtain ⟨text, hdecode, hmalformed | ⟨manifest, hloads⟩⟩ := hobject bytes hget
      · refine .inl ⟨?_, "backup manifest is invalid", by simp only [verifyBackup, hget, hdecode, hmalformed]⟩
        rintro items ⟨bytes', text', manifest, hget', hdecode', hloads, -⟩
        cases hget.symm.trans hget'
        cases hdecode.symm.trans hdecode'
        cases hmalformed.symm.trans hloads
      · have hverify : verifyBackup lib (some b) = checkManifest lib b manifest := by
          simp only [verifyBackup, hget, hdecode, hloads]
        have hsupported : ∀ items, Supported lib b items →
            (lookup manifest "schema_version").eq (.scalar (.int 1)) ∧ lookup manifest "files" = .list items := by
          rintro items ⟨bytes', text', manifest', hget', hdecode', hloads', hschema, hitems⟩
          cases hget.symm.trans hget'
          cases hdecode.symm.trans hdecode'
          cases hloads.symm.trans hloads'
          exact ⟨hschema, hitems⟩
        rw [hverify]
        unfold checkManifest
        split
        · rename_i hschema
          split
          · rename_i items hitems
            exact .inr ⟨items, manifest, ⟨bytes, text, manifest, hget, hdecode, hloads, hschema, hitems⟩, rfl⟩
          · rename_i hnone
            exact .inl ⟨fun items h => hnone items (hsupported items h).2, _, rfl⟩
        · rename_i hschema
          exact .inl ⟨fun items h => hschema (hsupported items h).1, _, rfl⟩
    · refine .inl ⟨?_, "backup manifest is missing", ?_⟩
      · rintro items ⟨bytes, -, -, hget, -⟩
        exact hfile ⟨bytes, hget⟩
      · simp only [verifyBackup]
        split
        · rename_i bytes hget
          exact absurd ⟨bytes, hget⟩ hfile
        · rfl
  · refine .inl ⟨hobject, ?_, ?_⟩
    · rintro items ⟨bytes, text, manifest, hget, hdecode, hloads, -⟩
      refine hobject fun bytes' hget' => ?_
      cases hget.symm.trans hget'
      exact ⟨text, hdecode, .inr ⟨manifest, hloads⟩⟩
    · unfold ReadsObject at hobject
      push Not at hobject
      obtain ⟨bytes, hget, htext⟩ := hobject
      cases hdecode : lib.decode bytes with
      | none => exact ⟨.unicodeDecodeError, by simp only [verifyBackup, hget, hdecode]⟩
      | some text =>
        obtain ⟨hmalformed, hdict⟩ := htext text hdecode
        cases hloads : lib.loads text with
        | malformed => exact absurd hloads hmalformed
        | raised e => exact ⟨e, by simp only [verifyBackup, hget, hdecode, hloads]⟩
        | value v =>
          refine ⟨.attributeError, ?_⟩
          cases v with
          | dict manifest => exact absurd hloads (hdict manifest)
          | scalar | list => simp only [verifyBackup, hget, hdecode, hloads]

/-! ### Records of the files -/

theorem splitOn_named {path : Path} (h : path ≠ [] ∧ ∀ part ∈ path, part ≠ "" ∧ '/' ∉ part.toList) :
    ((asPosix path).toList.splitOn '/').map String.ofList = path :=
  splitOn_asPosix h.1 fun part hpart => (h.2 part hpart).2

/-- A file of the directory has a name of its own, and one that is safe. -/
theorem content_injective {f f' : Path × Bytes} (hf : f ∈ content b.tree) (hf' : f' ∈ content b.tree)
    (h : asPosix f.1 = asPosix f'.1) : f = f' := by
  have he := (mem_content.mp hf).1
  have he' := (mem_content.mp hf').1
  have hpath : f.1 = f'.1 := by rw [← splitOn_named (b.named _ he), ← splitOn_named (b.named _ he'), h]
  have hleaf := Dict.get_of_mem b.tree.distinct he
  have hleaf' := Dict.get_of_mem b.tree.distinct he'
  rw [hpath] at hleaf
  have hbytes : Leaf.file f.2 = Leaf.file f'.2 := Option.some.inj (hleaf.symm.trans hleaf')
  exact Prod.ext hpath (Leaf.file.inj hbytes)

theorem safePath_of_content {f : Path × Bytes} (hf : f ∈ content b.tree) {fields : Fields}
    (h : lookup fields "path" = .scalar (.str (asPosix f.1))) : safePath fields = some (asPosix f.1) := by
  obtain ⟨hne, hparts⟩ := b.named _ (mem_content.mp hf).1
  obtain ⟨part, rest, hpath⟩ := List.exists_cons_of_ne_nil hne
  obtain ⟨hempty, hslash⟩ := hparts part (hpath ▸ List.mem_cons_self)
  have hchars : part.toList ≠ [] := fun h => hempty (String.toList_inj.mp h)
  obtain ⟨c, cs, hc⟩ := List.exists_cons_of_ne_nil hchars
  have hhead : (asPosix f.1).toList.head? = some c := by
    rw [asPosix, String.toList_ofList, hpath, List.map_cons, hc]
    cases rest <;> simp [List.intercalate]
  have hnot : ¬ (asPosix f.1 = "" ∨ (asPosix f.1).toList.head? = some '/') := by
    rw [hhead]
    rintro (hnil | hc')
    · rw [hnil] at hhead
      cases hhead
    · cases hc'
      exact hslash (hc ▸ List.mem_cons_self)
  simp only [safePath, h, hnot, if_false]

theorem truncate_intCast (i : ℤ) : truncate (i : ℚ) = i := by
  unfold truncate
  split
  · exact Int.floor_intCast i
  · exact Int.ceil_intCast i

theorem Truthful.reads (hlink : Linkless b) {item : PyValue} {f : Path × Bytes} (hf : f ∈ content b.tree)
    (h : Truthful lib item f) : Reads lib b item (asPosix f.1, f.2.length, lib.sha256 f.2) := by
  obtain ⟨fields, rfl, hpath, hsize, hdigest⟩ := h
  refine ⟨fields, rfl, safePath_of_content hf hpath, b.resolves hlink _ (mem_content.mp hf).1, ?_, ?_⟩
  · unfold sizeBytes
    rcases hsize with hsize | hsize
    · rw [hsize]
      rfl
    · rw [hsize]
      exact congrArg Except.ok (truncate_intCast f.2.length)
  · unfold digest
    rw [hdigest]
    rfl

theorem Truthful.plain {item : PyValue} {f : Path × Bytes} (h : Truthful lib item f) : Plain item := by
  obtain ⟨fields, rfl, hpath, hsize, hdigest⟩ := h
  intro fields' heq
  cases heq
  refine ⟨⟨f.2.length, ?_⟩, _, hdigest⟩
  simpa using hsize

/-- A record that reads like the file, with a plain size and digest, is the record of the file. -/
theorem truthful_of_reads {item : PyValue} {f : Path × Bytes} (hplain : Plain item)
    (h : Reads lib b item (asPosix f.1, f.2.length, lib.sha256 f.2)) : Truthful lib item f := by
  obtain ⟨fields, rfl, hpath, -, hsize, hdigest⟩ := h
  obtain ⟨⟨size, hplain⟩, digest', hdigest'⟩ := hplain fields rfl
  have hread : int lib (sizeBytes fields) = .ok size := by
    unfold sizeBytes
    rcases hplain with hplain | hplain
    · rw [hplain]
      rfl
    · rw [hplain]
      exact congrArg Except.ok (truncate_intCast size)
  have hlength : size = f.2.length := Except.ok.inj (hread.symm.trans hsize)
  have hsha : digest' = lib.sha256 f.2 := by
    unfold digest at hdigest
    rwa [hdigest'] at hdigest
  have hlookup : lookup fields "path" = .scalar (.str (asPosix f.1)) := by
    unfold safePath at hpath
    split at hpath
    · rename_i relative hrelative
      split_ifs at hpath
      cases hpath
      exact hrelative
    · cases hpath
  subst hlength hsha
  exact ⟨fields, rfl, hlookup, by simpa using hplain, hdigest'⟩

/-- The record that is read of a truthful record is that of its file. -/
theorem Truthful.reads_eq (hlink : Linkless b) {item : PyValue} {f : Path × Bytes} (hf : f ∈ content b.tree)
    (h : Truthful lib item f) {path : String} {record : ℤ × String} (hreads : Reads lib b item (path, record)) :
    path = asPosix f.1 ∧ record = (↑f.2.length, lib.sha256 f.2) :=
  Prod.ext_iff.mp (reads_unique hreads (h.reads hlink hf))

/-- True records match. -/
theorem Lists.matches (hlink : Linkless b) {items : List PyValue} (h : Lists lib items (content b.tree)) :
    Matches lib b items (content b.tree) := by
  refine ⟨fun item hitem => ?_, fun f hf => ?_⟩
  · obtain ⟨f, hf, htrue⟩ := h.true_of item hitem
    exact ⟨f, hf, _, htrue.reads hlink hf⟩
  · obtain ⟨item, hitem, htrue⟩ := h.listed f hf
    obtain ⟨record, hlast⟩ := exists_lastReads hitem (htrue.reads hlink hf)
    obtain ⟨item', hitem', hreads⟩ := hlast.mem
    obtain ⟨f', hf', htrue'⟩ := h.true_of item' hitem'
    obtain ⟨hpath, rfl⟩ := htrue'.reads_eq hlink hf' hreads
    obtain rfl := content_injective hf hf' hpath
    exact hlast

/-- Records that match are true where they are plain and agree. -/
theorem Matches.lists_iff (hlink : Linkless b) {items : List PyValue} (h : Matches lib b items (content b.tree)) :
    Lists lib items (content b.tree) ↔ (∀ item ∈ items, Plain item) ∧ Agree lib b items := by
  constructor
  · intro hlists
    refine ⟨fun item hitem => ?_, fun item hitem item' hitem' path record record' hreads hreads' => ?_⟩
    · obtain ⟨f, -, htrue⟩ := hlists.true_of item hitem
      exact htrue.plain
    · obtain ⟨f, hf, htrue⟩ := hlists.true_of item hitem
      obtain ⟨f', hf', htrue'⟩ := hlists.true_of item' hitem'
      obtain ⟨rfl, rfl⟩ := htrue.reads_eq hlink hf hreads
      obtain ⟨hpath, rfl⟩ := htrue'.reads_eq hlink hf' hreads'
      obtain rfl := content_injective hf hf' hpath
      rfl
  · rintro ⟨hplain, hagree⟩
    refine ⟨fun item hitem => ?_, fun f hf => ?_⟩
    · obtain ⟨f, hf, record, hreads⟩ := h.reads item hitem
      obtain ⟨item', hitem', hreads'⟩ := (h.last f hf).mem
      obtain rfl := hagree item hitem item' hitem' _ _ _ hreads hreads'
      exact ⟨f, hf, truthful_of_reads (hplain item hitem) hreads⟩
    · obtain ⟨item, hitem, hreads⟩ := (h.last f hf).mem
      exact ⟨item, hitem, truthful_of_reads (hplain item hitem) hreads⟩

/-- With a file below the top that is called like the manifest, records that match are not true. -/
theorem not_lists_of_nested (hlink : Linkless b) {items : List PyValue} (hnested : visible b.tree ≠ content b.tree)
    (h : Matches lib b items (visible b.tree)) : ¬ Lists lib items (content b.tree) := by
  intro hlists
  refine hnested (List.filter_eq_self.mpr fun f hf => ?_)
  obtain ⟨item, hitem, htrue⟩ := hlists.listed f hf
  obtain ⟨f', hf', record, hreads⟩ := h.reads item hitem
  have hpath := (htrue.reads_eq hlink hf hreads).1
  have hmem : f' ∈ content b.tree := List.mem_of_mem_filter hf'
  obtain rfl := content_injective hmem hf hpath
  exact (List.mem_filter.mp hf').2

theorem intact_iff {items : List PyValue} (h : Supported lib b items) :
    Intact lib (some b) ↔ Linkless b ∧ Lists lib items (content b.tree) ∧ Healthy lib b := by
  constructor
  · rintro ⟨b', items', heq, hsupported, hall⟩
    cases heq
    obtain rfl := supported_unique h hsupported
    exact hall
  · exact fun hall => ⟨b, items, rfl, h, hall⟩

theorem not_intact {d : Option Backup} (h : ∀ b, d = some b → ∀ items, ¬ Supported lib b items) : ¬ Intact lib d := by
  rintro ⟨b, items, rfl, hsupported, -⟩
  exact h b rfl items hsupported

theorem detects_of_ok {d : Option Backup} {manifest : Fields} (h : verifyBackup lib d = .ok manifest) :
    Detects lib d ↔ Intact lib d := by rw [Detects, h]

theorem detects_of_backupError {d : Option Backup} {text : String}
    (h : verifyBackup lib d = .error (.backupError text)) : Detects lib d ↔ ¬ Intact lib d := by rw [Detects, h]

theorem detects_of_escape {d : Option Backup} {e : Escape} (h : verifyBackup lib d = .error (.escape e)) :
    ¬ Detects lib d := by
  rw [Detects, h]
  exact id

/-- A check that comes to the database is right where SQLite answers and the records are true. -/
theorem detects_iff_of_matches {items : List PyValue} {manifest : Fields} (hsupported : Supported lib b items)
    (hobject : ReadsObject lib b) (horderly : Orderly lib b items) (hlink : Linkless b)
    (hm : Matches lib b items (visible b.tree))
    (hverify : verifyBackup lib (some b) = (checkDatabase lib b).map fun _ => manifest) :
    Detects lib (some b) ↔ Regular lib b := by
  cases hcheck : checkDatabase lib b with
  | ok =>
    have hhealthy : Healthy lib b := checkDatabase_eq_ok.mp hcheck
    have hok : verifyBackup lib (some b) = .ok manifest := by rw [hverify, hcheck]; rfl
    rw [detects_of_ok hok, intact_iff hsupported]
    constructor
    · rintro ⟨-, hlists, -⟩
      refine ⟨hobject, fun items' h => supported_unique hsupported h ▸ horderly, fun _ database _ _ _ hdatabase => ?_,
        fun _ _ _ _ hnested => absurd hlists (not_lists_of_nested hlink hnested hm), fun items' h _ _ _ hmatches => ?_⟩
      · obtain ⟨database', hdatabase', hrow⟩ := hhealthy
        cases hdatabase.symm.trans hdatabase'
        exact ⟨_, hrow⟩
      · obtain rfl := supported_unique hsupported h
        exact (hmatches.lists_iff hlink).mp hlists
    · intro hregular
      refine ⟨hlink, ?_, hhealthy⟩
      by_cases hvisible : visible b.tree = content b.tree
      · rw [hvisible] at hm
        exact (hm.lists_iff hlink).mpr (hregular.plain items hsupported hlink hhealthy hvisible hm)
      · exact absurd hm (hregular.nested items hsupported hlink hhealthy hvisible).1
  | error e =>
    have hsick : ¬ Healthy lib b := fun h => by cases hcheck.symm.trans (checkDatabase_eq_ok.mpr h)
    cases e with
    | backupError text =>
      have herror : verifyBackup lib (some b) = .error (.backupError text) := by rw [hverify, hcheck]; rfl
      rw [detects_of_backupError herror, intact_iff hsupported]
      refine iff_of_true (fun h => hsick h.2.2) ⟨hobject, fun items' h => supported_unique hsupported h ▸ horderly,
        fun _ database _ _ _ hdatabase => ?_, fun _ _ _ h => absurd h hsick, fun _ _ _ h => absurd h hsick⟩
      cases hrow : lib.quickCheck database with
      | ok row => exact ⟨row, rfl⟩
      | error e =>
        obtain ⟨e', hescape⟩ := checkDatabase_escapes.mpr ⟨database, e, hdatabase, hrow⟩
        cases hcheck.symm.trans hescape
    | escape e =>
      have hescape : verifyBackup lib (some b) = .error (.escape e) := by rw [hverify, hcheck]; rfl
      refine iff_of_false (detects_of_escape hescape) fun hregular => ?_
      obtain ⟨database, e', hdatabase, hrow⟩ := checkDatabase_escapes.mp ⟨e, hcheck⟩
      obtain ⟨row, hanswer⟩ := hregular.answers items database hsupported hlink hm hdatabase
      cases hrow.symm.trans hanswer

/-- A check that finds a link or files that do not match is right, but where a file below the top
that is called like the manifest is what does not match. -/
theorem detects_iff_of_not_matches {items : List PyValue} {text : String} (hsupported : Supported lib b items)
    (hobject : ReadsObject lib b) (horderly : Orderly lib b items)
    (hm : ¬ (Linkless b ∧ Matches lib b items (visible b.tree)))
    (hverify : verifyBackup lib (some b) = .error (.backupError text)) :
    Detects lib (some b) ↔ Regular lib b := by
  rw [detects_of_backupError hverify, intact_iff hsupported]
  constructor
  · intro hintact
    refine ⟨hobject, fun items' h => supported_unique hsupported h ▸ horderly, fun items' _ h hlink hmatches => ?_,
      fun items' h hlink hhealthy hnested => ?_, fun items' h hlink hhealthy hvisible hmatches => ?_⟩
    · exact absurd ⟨hlink, supported_unique hsupported h ▸ hmatches⟩ hm
    · obtain rfl := supported_unique hsupported h
      exact ⟨fun hmatches => hm ⟨hlink, hmatches⟩, fun hlists => hintact ⟨hlink, hlists, hhealthy⟩⟩
    · obtain rfl := supported_unique hsupported h
      exact absurd ⟨hlink, hvisible ▸ hmatches⟩ hm
  · rintro hregular ⟨hlink, hlists, hhealthy⟩
    by_cases hvisible : visible b.tree = content b.tree
    · exact hm ⟨hlink, hvisible ▸ hlists.matches hlink⟩
    · exact (hregular.nested items hsupported hlink hhealthy hvisible).2 hlists

end Records

/-- `verify_backup` returns where the backup is intact and raises `BackupError` where it is not,
exactly if the directory is regular. -/
theorem detects_iff (d : Option Backup) : Detects lib d ↔ ∀ b, d = some b → Regular lib b := by
  cases d with
  | none =>
    refine iff_of_true ?_ fun b h => nomatch h
    exact not_intact fun b h => nomatch h
  | some b =>
    have hsome : (∀ b', some b = some b' → Regular lib b') ↔ Regular lib b :=
      ⟨fun h => h b rfl, fun h b' heq => Option.some.inj heq ▸ h⟩
    rw [hsome]
    rcases verifyBackup_cases lib b with ⟨hobject, -, e, hverify⟩ |
      ⟨hobject, ⟨hnone, text, hverify⟩ | ⟨items, manifest, hsupported, hverify⟩⟩
    · exact iff_of_false (detects_of_escape hverify) fun hregular => hobject hregular.object
    · rw [detects_of_backupError hverify]
      refine iff_of_true (not_intact fun b' heq => Option.some.inj heq ▸ hnone) ⟨hobject, ?_, ?_, ?_, ?_⟩
      · exact fun items h => absurd h (hnone items)
      · exact fun items _ h => absurd h (hnone items)
      · exact fun items h => absurd h (hnone items)
      · exact fun items h => absurd h (hnone items)
    · rcases checkItems_cases lib b items with ⟨horderly, e, hcheck⟩ |
        ⟨horderly, ⟨hlink, hm, hcheck⟩ | ⟨hm, text, hcheck⟩⟩
      · rw [hcheck] at hverify
        exact iff_of_false (detects_of_escape hverify) fun hregular => horderly (hregular.orderly items hsupported)
      · rw [hcheck] at hverify
        exact detects_iff_of_matches hsupported hobject horderly hlink hm hverify
      · rw [hcheck] at hverify
        exact detects_iff_of_not_matches hsupported hobject horderly hm hverify

/-- A backup whose manifest is `[]`. -/
def listed : Backup where
  tree :=
    { entries := [(["manifest.json"], .file [91, 93]), (["automl.db"], .file [])]
      distinct := by decide
      rooted := by decide }
  place _ := .inside
  named := by decide
  resolves _ _ _ := rfl

/-- Libraries that know the text `[]`. -/
def bracketLibraries : Libraries where
  sha256 _ := ""
  decode bytes := if bytes = [91, 93] then some "[]" else none
  loads text := if text = "[]" then .value (.list []) else .malformed
  maxDigits := 4300
  str _ := ""
  quickCheck _ := .ok (some "ok")

theorem not_detects_listed : ¬ ∀ (lib : Libraries) (d : Option Backup), Detects lib d := by
  intro h
  have hverify : verifyBackup bracketLibraries (some listed) = .error (.escape .attributeError) := rfl
  exact detects_of_escape hverify (h bracketLibraries (some listed))

end AutomlApi.Backups.Verifying
