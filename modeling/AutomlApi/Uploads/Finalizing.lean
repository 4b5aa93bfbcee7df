import AutomlApi.Library.Checked
import AutomlApi.Library.Dict
import AutomlApi.Library.Digits
import AutomlApi.Library.Runs
import Mathlib.Data.List.Sort

/-! The parts of an upload and the call that makes the object of a dataset version from
them. The call awaits between any two of its steps, and calls of `put_upload_part` run in
between; each of its operations may fail. -/

namespace AutomlApi.Uploads

-- Only the elements of a list are asked, not every character.
attribute [local instance (2000)] List.decidableBAll List.decidableBEx

abbrev Bytes := List UInt8

structure BlobInfo where
  key : String
  sizeBytes : ℕ
  sha256 : String
  etag : String
  deriving DecidableEq

inductive Problem where
  | integrity (text : String)
  | notFound (text : String)
  | sizeLimit (text : String)
  | valueError (text : String)
  | osError
  deriving DecidableEq

def etagOf (sha256 : String) : String := "\"" ++ sha256 ++ "\""

def safeCharacters : List Char := "abcdefghijklmnopqrstuvwxyzABCDEFGHIJKLMNOPQRSTUVWXYZ0123456789_-".toList

/-- `_safe_component`. -/
def safeComponent (value field : String) : Except Problem String := do
  refuse (.valueError (field ++ " must not be empty")) (value = "" ∨ value = "." ∨ value = "..")
  refuse (.valueError (field ++ " contains unsupported characters")) (∃ c ∈ value.toList, c ∉ safeCharacters)
  .ok value

/-- A declared part. -/
structure Part where
  partNumber : ℤ
  etag : String
  deriving DecidableEq

/-- The arguments of `finalize_upload`. -/
structure Request where
  tenantId : String
  datasetVersionId : String
  uploadId : String
  parts : List Part
  expectedSize : ℕ
  expectedSha256 : String

namespace Request

/-- The parts by their numbers. -/
def supplied (r : Request) : List Part := r.parts.insertionSort fun p q => p.partNumber ≤ q.partNumber

/-- Numbered from one without gap or repetition. -/
def Contiguous (r : Request) : Prop :=
  r.supplied ≠ [] ∧ r.supplied.map Part.partNumber = (List.range r.supplied.length).map fun n => (n : ℤ) + 1

instance (r : Request) : Decidable r.Contiguous := inferInstanceAs (Decidable (_ ∧ _))

/-- `_relative_key(destination)`. -/
def key (r : Request) : String := "datasets/" ++ r.tenantId ++ "/" ++ r.datasetVersionId ++ "/source"

def checked (r : Request) : Except Problem Unit := do
  refuse (.integrity "upload parts must be contiguous and start at one") (¬ r.Contiguous)
  let _ ← safeComponent r.tenantId "tenant_id"
  let _ ← safeComponent r.datasetVersionId "dataset_version_id"

/-- The checks of `_upload_part_path`. -/
def checkPart (r : Request) (number : ℤ) : Except Problem Unit := do
  let _ ← safeComponent r.tenantId "tenant_id"
  let _ ← safeComponent r.datasetVersionId "dataset_version_id"
  let _ ← safeComponent r.uploadId "upload_id"
  refuse (.valueError "part_number must be positive") (number < 1)

end Request

variable (sha256 : Bytes → String)

/-- The bytes are those that the request declares. -/
def Request.Declares (r : Request) (bytes : Bytes) : Prop := bytes.length = r.expectedSize ∧ sha256 bytes = r.expectedSha256

instance (r : Request) (bytes : Bytes) : Decidable (r.Declares sha256 bytes) := inferInstanceAs (Decidable (_ ∧ _))

/-- The result of the call. -/
def Request.info (r : Request) : BlobInfo := ⟨r.key, r.expectedSize, r.expectedSha256, etagOf r.expectedSha256⟩

/-! ### A part -/

/-- Where a call of `put_upload_part` stands. -/
inductive Put where
  /-- `content` is what its temporary file holds. -/
  | writing (number : ℤ) (content : Bytes)
  | renamed (info : BlobInfo)
  | leaving (result : Except Problem BlobInfo)
  | returned (info : BlobInfo)
  | raised (e : Problem)

inductive PutMove where
  | start (number : ℤ)
  | chunk (bytes : Bytes)
  | rename
  | chmod
  | unlink
  | fail

/-! ### The call -/

/-- Where the call of `finalize_upload` stands. `todo` are the parts that it has not come
to, `read` the contents of the part files that it has opened, and `seen` what the digest
has been fed. -/
inductive Stage where
  | started
  | checking
  | opening
  | choosing (todo : List Part) (read : List Bytes) (seen : Bytes)
  | hashing (part : Part) (todo : List Part) (read : List Bytes) (seen : Bytes)
  | entering (part : Part) (todo : List Part) (read : List Bytes) (seen : Bytes)
  | copying (todo : List Part) (read : List Bytes) (seen rest : Bytes)
  | flushed (read : List Bytes) (seen : Bytes)
  | renamed (read : List Bytes) (seen : Bytes)
  | leaving (result : Except Problem BlobInfo)
  | returned (info : BlobInfo)
  | raised (e : Problem)
  deriving DecidableEq

inductive Move where
  | start
  /-- The object that is there has been hashed. -/
  | hashExisting
  | openTemporary
  | choose
  | hashPart
  | openPart
  | readChunk
  | publish
  | chmod
  | unlink
  /-- An operation fails, or the task is cancelled: before the rename. -/
  | fail
  | chmodFails
  | unlinkFails
  deriving DecidableEq

inductive Label where
  | put (call : ℕ) (m : PutMove)
  | finalize (m : Move)

/-- The files of the version: its parts, its object, and the call's temporary file. -/
structure Files where
  parts : Dict ℤ Bytes
  destination : Option Bytes
  temporary : Option Bytes

structure System where
  files : Files
  puts : Dict ℕ Put
  stage : Stage

def chunkSize : ℕ := 1024 * 1024

/-- The path of a part, whose number has been found positive. -/
def partKey (r : Request) (number : ℤ) : String :=
  "uploads/" ++ r.tenantId ++ "/" ++ r.datasetVersionId ++ "/" ++ r.uploadId ++ "/part-" ++
    String.ofList (Digits.padded 5 number.toNat)

variable (maxPartBytes : Option ℕ) (r : Request)

/-- A step of `put_upload_part`. -/
def Put.move (parts : Dict ℤ Bytes) : Option Put → PutMove → Option (Put × Dict ℤ Bytes)
  | none, .start number =>
    match r.checkPart number with
    | .ok _ => some (.writing number [], parts)
    | .error e => some (.raised e, parts)
  | some (.writing number content), .chunk bytes =>
    if bytes ≠ [] ∧ maxPartBytes.any (· < content.length + bytes.length) then
      some (.leaving (.error (.sizeLimit "upload part exceeds the configured service limit")), parts)
    else some (.writing number (content ++ bytes), parts)
  | some (.writing number content), .rename =>
    let digest := sha256 content
    some (.renamed ⟨partKey r number, content.length, digest, etagOf digest⟩, parts.set number content)
  | some (.renamed info), .chmod => some (.leaving (.ok info), parts)
  | some (.leaving (.ok info)), .unlink => some (.returned info, parts)
  | some (.leaving (.error e)), .unlink => some (.raised e, parts)
  | some (.writing _ _), .fail => some (.leaving (.error .osError), parts)
  | some (.renamed _), .fail => some (.leaving (.error .osError), parts)
  | some (.leaving _), .fail => some (.raised .osError, parts)
  | _, _ => none

/-- `_hash_file(source)` against the declared ETag. -/
def hashed (part : Part) : Option Bytes → Except Problem Unit
  | none => .error .osError
  | some bytes =>
    refuse (.integrity ("upload part " ++ toString part.partNumber ++ " ETag does not match")) (part.etag ≠ etagOf (sha256 bytes))

/-- The checks before the rename. -/
def complete (seen : Bytes) : Except Problem Unit := do
  refuse (.integrity ("uploaded size is " ++ toString seen.length ++ " bytes, expected " ++ toString r.expectedSize ++ " bytes"))
    (seen.length ≠ r.expectedSize)
  refuse (.integrity "uploaded SHA-256 does not match the declaration") (sha256 seen ≠ r.expectedSha256)

/-- A step of `finalize_upload`. -/
def Stage.move (f : Files) : Stage → Move → Option (Stage × Files)
  | .started, .start =>
    match r.checked with
    | .error e => some (.raised e, f)
    | .ok _ => if f.destination.isSome then some (.checking, f) else some (.opening, f)
  | .checking, .hashExisting =>
    match f.destination with
    | some bytes =>
      if r.Declares sha256 bytes then some (.returned ⟨r.key, bytes.length, sha256 bytes, etagOf (sha256 bytes)⟩, f)
      else some (.raised (.integrity "an immutable dataset object already exists with other bytes"), f)
    | none => some (.raised .osError, f)
  | .opening, .openTemporary => some (.choosing r.supplied [] [], { f with temporary := some [] })
  | .choosing [] read seen, .choose => some (.flushed read seen, f)
  | .choosing (part :: todo) read seen, .choose =>
    match r.checkPart part.partNumber with
    | .error e => some (.leaving (.error e), f)
    | .ok _ =>
      if f.parts.has part.partNumber then some (.hashing part todo read seen, f)
      else some (.leaving (.error (.notFound ("upload part " ++ toString part.partNumber ++ " is missing"))), f)
  | .hashing part todo read seen, .hashPart =>
    match hashed sha256 part (f.parts.get part.partNumber) with
    | .error e => some (.leaving (.error e), f)
    | .ok _ => some (.entering part todo read seen, f)
  | .entering part todo read seen, .openPart =>
    match f.parts.get part.partNumber with
    | none => some (.leaving (.error .osError), f)
    | some bytes => some (.copying todo (read ++ [bytes]) seen bytes, f)
  | .copying todo read seen [], .readChunk => some (.choosing todo read seen, f)
  | .copying todo read seen (byte :: rest), .readChunk =>
    -- the file that is open stays the same when another takes its name
    let chunk := (byte :: rest).take chunkSize
    some (.copying todo read (seen ++ chunk) ((byte :: rest).drop chunkSize),
      { f with temporary := f.temporary.map (· ++ chunk) })
  | .flushed read seen, .publish =>
    match complete sha256 r seen with
    | .error e => some (.leaving (.error e), f)
    | .ok _ => some (.renamed read seen, { f with destination := f.temporary, temporary := none })
  | .renamed _ seen, .chmod => some (.leaving (.ok ⟨r.key, seen.length, r.expectedSha256, etagOf r.expectedSha256⟩), f)
  | .renamed _ _, .chmodFails => some (.leaving (.error .osError), f)
  | .leaving (.ok info), .unlink => some (.returned info, { f with temporary := none })
  | .leaving (.error e), .unlink => some (.raised e, { f with temporary := none })
  | .leaving _, .unlinkFails => some (.raised .osError, f)
  | .started, .fail => some (.raised .osError, f)
  | .checking, .fail => some (.raised .osError, f)
  | .opening, .fail => some (.leaving (.error .osError), f)
  | .choosing _ _ _, .fail => some (.leaving (.error .osError), f)
  | .hashing _ _ _ _, .fail => some (.leaving (.error .osError), f)
  | .entering _ _ _ _, .fail => some (.leaving (.error .osError), f)
  | .copying _ _ _ _, .fail => some (.leaving (.error .osError), f)
  | .flushed _ _, .fail => some (.leaving (.error .osError), f)
  | _, _ => none

def System.step (s : System) : Label → Option System
  | .put call m =>
    match Put.move sha256 maxPartBytes r s.files.parts (s.puts.get call) m with
    | some (put, parts) => some { s with files := { s.files with parts }, puts := s.puts.set call put }
    | none => none
  | .finalize m =>
    match s.stage.move sha256 r s.files m with
    | some (stage, files) => some { s with stage, files }
    | none => none

end AutomlApi.Uploads
