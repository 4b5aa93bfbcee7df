import AutomlApi.Library.Checked
import AutomlApi.Library.Integers

/-! Downloads of the SDK: an artifact goes into a file beside its destination, whose size
decides where a request starts, and takes the destination's place when its bytes are those
of the ticket. -/

namespace AutomlApi.Downloads

-- Only the elements of a list are asked, not every character.
attribute [local instance (2000)] List.decidableBAll List.decidableBEx

abbrev Content := List UInt8

/-- The destination and the `.part` file beside it. -/
structure Disk where
  target : Option Content := none
  part : Option Content := none
  /-- How many times the destination was replaced. -/
  replaced : ℕ := 0
  deriving DecidableEq

namespace Disk

/-- `_unlink_if_exists` of the `.part` file. -/
def unlink (d : Disk) : Disk := { d with part := none }

/-- `os.replace`. -/
def replace (d : Disk) (bytes : Content) : Disk :=
  { target := some bytes, part := none, replaced := d.replaced + 1 }

def write (d : Disk) (bytes : Content) : Disk := { d with part := some bytes }

/-- The size of the `.part` file, or zero. -/
def size (d : Disk) : ℕ := (d.part.map List.length).getD 0

end Disk

/-- A ticket that was validated. -/
structure Ticket (D : Type) where
  etag : String
  sha256 : D
  sizeBytes : ℕ
  supportsRange : Bool

/-- The exceptions of a call. -/
inductive Failure where
  | transport (attempts : ℕ)
  | protocol (message : String)
  | api (status : ℕ)
  | other
  deriving DecidableEq

/-- What stops one request: an `httpx.TransportError`, or another exception. -/
inductive Stop where
  | lost
  | failed (error : Failure)
  deriving DecidableEq

/-- How the body of a response ends. -/
inductive Ending where
  | complete | lost | broken
  deriving DecidableEq

structure Response where
  status : ℕ
  etag : Option String
  contentLength : Option String
  contentEncoding : Option String := none
  contentRange : String := ""
  chunks : List Content
  ending : Ending := .complete

/-- What becomes of a request before there is a response, or the response. -/
inductive Reply where
  | unreachable
  | raised (error : Failure)
  | response (r : Response)

/-! ### The response -/

def protocol (message : String) : Stop := .failed (.protocol message)

/-- `response.read()`. -/
def Response.read (r : Response) : Except Stop Unit :=
  match r.ending with
  | .complete => .ok ()
  | .lost => .error .lost
  | .broken => .error (.failed .other)

def badLength : Stop := protocol "download response Content-Length does not match its ticket"

/-- The number of the `Content-Length`, where it has digits only. -/
def readLength (raw : Option String) : Except Stop ℤ :=
  match raw.filter fun text => Integers.isdigit text.toList with
  | none => .error badLength
  | some text =>
    match Integers.int text.toList with
    | none => .error (.failed .other)
    | some n => .ok n

/-- The groups of `_CONTENT_RANGE`. -/
def rangeGroups (raw : List Char) : Option (List (List Char)) :=
  let first := (raw.drop 6).takeWhile Char.isDigit
  match (raw.drop 6).dropWhile Char.isDigit with
  | '-' :: rest =>
    match rest.dropWhile Char.isDigit with
    | '/' :: last =>
      if raw.take 6 = "bytes ".toList ∧ first ≠ [] ∧ rest.takeWhile Char.isDigit ≠ [] ∧ last ≠ [] ∧ ∀ c ∈ last, c.isDigit then
        some [first, rest.takeWhile Char.isDigit, last]
      else none
    | _ => none
  | _ => none

def badRange : Stop := protocol "download response Content-Range does not match the request"

/-- The numbers of the `Content-Range`. -/
def readRange (raw : String) : Except Stop (List ℤ) :=
  match rangeGroups raw.toList with
  | none => .error badRange
  | some groups =>
    match groups.mapM Integers.int with
    | none => .error (.failed .other)
    | some numbers => .ok numbers

section Download

variable {D : Type} [DecidableEq D] (sha256 : Content → D) (ticket : Ticket D)

/-- The check of the range that a ranged response has. -/
def checkRange (ranged : Bool) (offset : ℕ) (raw : String) : Except Stop Unit :=
  if ranged then (readRange raw).bind fun numbers =>
    refuse badRange (numbers ≠ [(offset : ℤ), (ticket.sizeBytes : ℤ) - 1, (ticket.sizeBytes : ℤ)])
  else .ok ()

/-- `_validate_download_response`. -/
def validateDownloadResponse (ranged : Bool) (offset : ℕ) (r : Response) : Except Stop Unit :=
  let expectedStatus := if ranged then 206 else 200
  if r.status ≠ expectedStatus then do
    r.read
    refuse (.failed (.api r.status)) (400 ≤ r.status)
    .error (protocol ("download response status " ++ toString r.status ++ " is not " ++ toString expectedStatus))
  else do
    refuse (protocol "download response ETag does not match its ticket") (r.etag ≠ some ticket.etag)
    let length ← readLength r.contentLength
    refuse badLength (length ≠ (ticket.sizeBytes : ℤ) - offset)
    refuse (protocol "encoded artifact downloads are not supported")
      (∃ encoding ∈ r.contentEncoding, encoding ≠ "" ∧ encoding.toLower ≠ "identity")
    checkRange ticket ranged offset r.contentRange

/-- The loop over the chunks, and the file with what it wrote. -/
def receive (expected : ℕ) (ending : Ending) : ℕ → Content → List Content → Except Stop Unit × Content
  | downloaded, file, [] =>
    (match ending with
      | .complete =>
        refuse (protocol "download response ended before the ticket size was reached") (downloaded ≠ expected)
      | .lost => .error .lost
      | .broken => .error (.failed .other), file)
  | downloaded, file, chunk :: chunks =>
    if chunk = [] then receive expected ending downloaded file chunks
    else if expected < downloaded + chunk.length then
      (.error (protocol "download response exceeds the ticket size"), file)
    else receive expected ending (downloaded + chunk.length) (file ++ chunk) chunks

/-- One request: the file is opened once the response is validated, to append or to truncate. -/
def request (ranged : Bool) (offset : ℕ) (reply : Reply) (d : Disk) : Except Stop Unit × Disk :=
  match reply with
  | .unreachable => (.error .lost, d)
  | .raised error => (.error (.failed error), d)
  | .response r =>
    match validateDownloadResponse ticket ranged offset r with
    | .error stop => (.error stop, d)
    | .ok () =>
      let received := receive ticket.sizeBytes r.ending offset (if ranged then d.part.getD [] else []) r.chunks
      (received.1, d.write received.2)

/-! ### The call -/

variable (resume : Bool)

/-- No file that is longer than the artifact. -/
def fitting (d : Disk) : Disk := if ticket.sizeBytes < d.size then d.unlink else d

/-- No file that cannot be continued. -/
def continued (d : Disk) : Disk := if d.size ≠ 0 ∧ ¬ (resume ∧ ticket.supportsRange) then d.unlink else d

/-- What a transfer that was lost leaves. -/
def interrupted (d : Disk) : Disk := if resume ∧ ticket.supportsRange then d else d.unlink

/-- The body of the loop, with what the server does on a request from an offset. -/
def attemptOnce (server : Option ℕ → Reply) (d : Disk) : Except Stop Unit × Disk :=
  let d := fitting ticket d
  if d.part.isSome ∧ d.size = ticket.sizeBytes then (.ok (), d)
  else
    let d := continued ticket resume d
    let ranged := decide (d.size ≠ 0)
    request ticket ranged d.size (server (if ranged then some d.size else none)) d

/-- `_download_to_partial`; so many attempts are left after this one. -/
def downloadToPart (server : ℕ → Option ℕ → Reply) : ℕ → ℕ → Disk → Except Failure Unit × Disk
  | left, attempt, d =>
    match attemptOnce ticket resume (server attempt) d with
    | (.ok (), d) => (.ok (), d)
    | (.error (.failed error), d) => (.error error, d)
    | (.error .lost, d) =>
      match left with
      | 0 => (.error (.transport (attempt + 1)), interrupted ticket resume d)
      | left + 1 => downloadToPart server left (attempt + 1) (interrupted ticket resume d)

/-- The `.part` file takes the destination's place when it is what the ticket says. -/
def verifyPart (d : Disk) : Except Failure Unit × Disk :=
  match d.part with
  | none => (.error .other, d)
  | some bytes =>
    if bytes.length ≠ ticket.sizeBytes then
      (.error (.protocol ("downloaded artifact size " ++ toString bytes.length ++ " does not match " ++
        toString ticket.sizeBytes)), d)
    else if sha256 bytes ≠ ticket.sha256 then
      (.error (.protocol "downloaded artifact SHA-256 does not match its ticket"), d)
    else (.ok (), d.replace bytes)

/-- The clean-up after an exception. -/
def cleaned : Except Failure Unit × Disk → Except Failure Unit × Disk
  | (.ok (), d) => (.ok (), d)
  | (.error (.transport n), d) => (.error (.transport n), if resume then d else d.unlink)
  | (.error error, d) => (.error error, d.unlink)

/-- The file that the call starts from. -/
def started (d : Disk) : Disk := if resume ∧ d.size ≤ ticket.sizeBytes then d else d.unlink

/-- The body of the `try` statement. -/
def fetched (retries : ℕ) (server : ℕ → Option ℕ → Reply) (d : Disk) : Except Failure Unit × Disk :=
  match downloadToPart ticket resume server retries 0 d with
  | (.ok (), d) => verifyPart sha256 ticket d
  | (.error error, d) => (.error error, d)

/-- `download_artifact_file`, after its ticket was validated. -/
def downloadTicket (retries : ℕ) (server : ℕ → Option ℕ → Reply) (d : Disk) : Except Failure Unit × Disk :=
  let d := started ticket resume d
  match d.part with
  | none => cleaned resume (fetched sha256 ticket resume retries server d)
  | some bytes =>
    if bytes.length = ticket.sizeBytes then
      if sha256 bytes = ticket.sha256 then (.ok (), d.replace bytes)
      else cleaned resume (fetched sha256 ticket resume retries server d.unlink)
    else cleaned resume (fetched sha256 ticket resume retries server d)

end Download

/-- A call, with what it meets: the ticket or the exception of its request or its
validation, and the server. -/
structure Call (D : Type) where
  ticket : Except Failure (Ticket D)
  resume : Bool := true
  retries : ℕ
  server : ℕ → Option ℕ → Reply

variable {D : Type} [DecidableEq D] (sha256 : Content → D)

/-- `download_artifact_file`. -/
def downloadArtifactFile (call : Call D) (d : Disk) : Except Failure Unit × Disk :=
  match call.ticket with
  | .error error => (.error error, d)
  | .ok ticket => downloadTicket sha256 ticket call.resume call.retries call.server d

/-- One call after the other: their results, and the files in the end. -/
def calls : List (Call D) → Disk → List (Except Failure Unit) × Disk
  | [], d => ([], d)
  | call :: rest, d =>
    let done := downloadArtifactFile sha256 call d
    let later := calls rest done.2
    (done.1 :: later.1, later.2)

end AutomlApi.Downloads
