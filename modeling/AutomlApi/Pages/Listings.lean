import AutomlApi.Library.Paging
import AutomlApi.Requests.Idempotent
import AutomlApi.Store.Stock

/-! The listings in the order of ids: runs, approvals, webhook endpoints and webhook
deliveries. A cursor names the last id that was read and the last one that was there when
the first page was; the API signs it, and takes back only what it has signed. -/

namespace AutomlApi.Pages

open Paging (Follows sortBy after)
open Requests (APIProblem)
open Runs (Run)
open Store (Fields Value Fault Memory SetOrder SqliteStore Shelf Stocked Kept Careful Onward counterOf)

/-! ### Requests for pages -/

inductive Refusal where
  | problem (problem : APIProblem)
  | raised (fault : Fault)

def invalidCursor (detail : String) : APIProblem where
  status := 400
  code := "invalid_cursor"
  title := "Invalid cursor"
  detail := detail

def invalidFilter (detail : String) : APIProblem where
  status := 400
  code := "invalid_filter"
  title := "Invalid filter"
  detail := detail

/-- What `_owned` raises. -/
def notFound : APIProblem where
  status := 404
  code := "not_found"
  title := "Resource not found"
  detail := "The resource does not exist or is not visible to this principal."

/-- `resource.get("tenant_id") == principal.tenant_id`. -/
def owns (tenantId : String) (resource : Fields) : Bool := ((resource.get "tenant_id").getD .null).equal (.str tenantId)

theorem owns_of_get_eq {tenantId : String} {resource resource' : Fields}
    (h : resource'.get "tenant_id" = resource.get "tenant_id") : owns tenantId resource' = owns tenantId resource := by
  rw [owns, owns, h]

/-- `_owned`. -/
def owned (tenantId : String) : Option Fields → Except Refusal Fields
  | none => .error (.problem notFound)
  | some resource => if owns tenantId resource then .ok resource else .error (.problem notFound)

/-- `_validate_filter`, of values in their order, as `_csv_values` makes them. -/
def validateFilter (values : Option (List String)) (allowed : List String) (name : String) : Except Refusal Unit :=
  match (values.getD []).find? (· ∉ allowed) with
  | some invalid => .error (.problem (invalidFilter ("Unsupported " ++ name ++ " value: " ++ invalid ++ ".")))
  | none => .ok ()

/-- `_validate_cursor`, of the payload of a cursor that is signed. -/
def validateCursor (cursor : Fields) (kind tenantId : String) (parentId : Option String) : Except Refusal Unit :=
  let agrees (field value : String) := ((cursor.get field).getD .null).equal (.str value)
  if agrees "kind" kind && agrees "tenant_id" tenantId && parentId.all (agrees "parent_id") then .ok ()
  else .error (.problem (invalidCursor "The cursor is malformed or was issued for a different query."))

/-- `int(cursor_data.get(field, default))`. -/
def intOf (cursor : Fields) (field : String) (default : ℤ) : Except Refusal ℤ :=
  (Store.toInt ((cursor.get field).getD (.int default))).mapError .raised

structure Page where
  items : List Fields
  nextCursor : Option Fields
  hasMore : Bool
  highWatermark : ℤ

/-- The query of a request: the payload of its cursor, its page size and its status filter. -/
structure Asked where
  cursor : Option Fields
  limit : Option ℤ
  status : Option (List String)

/-- A reader takes the items of a page, and sends nothing but the cursor for the next one. -/
def Page.turn (p : Page) : List Fields × Option Asked := (p.items, p.nextCursor.map fun cursor => ⟨some cursor, none, none⟩)

/-! ### Pages in the order of ids -/

/-- One of the listings: the kind of its cursors, how its problems call a page, the parent
that its cursors name, and whether it has a status filter. -/
structure Listing where
  kind : String
  noun : String
  idField : String
  parentId : Option String
  filters : Bool

/-- What a cursor carries, less its status filter. -/
structure Marks where
  position : String
  highId : String
  highWatermark : ℤ
  limit : ℤ

namespace Listing

variable (l : Listing)

/-- `item[id_field]`, which is a string in every item of a store. -/
def idOf (item : Fields) : String := ((item.get l.idField).bind Value.nonEmptyString?).getD ""

def cursor (tenantId : String) (marks : Marks) (statuses : Value) : Fields :=
  [("kind", .str l.kind), ("tenant_id", .str tenantId), ("high_id", .str marks.highId),
    ("position", .str marks.position), ("high_watermark", .int marks.highWatermark), ("limit", .int marks.limit)] ++
  (match l.parentId with
  | some parentId => [("parent_id", .str parentId)]
  | none => []) ++
  if l.filters then [("statuses", statuses)] else []

/-- The marks of a cursor, which are checked as they are read. -/
def readMarks (cursor : Fields) : Except Refusal Marks := do
  let limit ← intOf cursor "limit" 0
  let highWatermark ← intOf cursor "high_watermark" (-1)
  match cursor.get "high_id", cursor.get "position" with
  | some (.str highId), some (.str position) =>
    if limit < 1 ∨ highWatermark < 0 then .error (.problem (invalidCursor "Cursor payload is invalid."))
    else .ok ⟨position, highId, highWatermark, limit⟩
  | _, _ => .error (.problem (invalidCursor "Cursor payload is invalid."))

/-- The marks of a first page. -/
def firstMarks (limit : Option ℤ) (items : List Fields) : Marks :=
  ⟨"", (items.getLast?.map l.idOf).getD "", items.length, limit.getD 50⟩

/-- A page of the sorted items. -/
def page (tenantId : String) (marks : Marks) (statuses : Value) (keep : Fields → Bool) (items : List Fields) : Page :=
  let window := (items.filter fun item => marks.position < l.idOf item ∧ l.idOf item ≤ marks.highId).filter keep
  let selected := window.take marks.limit.toNat
  let hasMore : Bool := marks.limit.toNat < window.length
  ⟨selected,
    if hasMore then
      selected.getLast?.map fun last => l.cursor tenantId { marks with position := l.idOf last } statuses
    else none,
    hasMore, marks.highWatermark⟩

/-- `values` of a status filter, as a cursor carries them. -/
def statusValue (status : Option (List String)) : Value := (status.map fun values => Value.list (values.map .str)).getD .null

/-- The answer to a request, of the sorted items. -/
def answer (tenantId : String) (asked : Asked) (keep : Value → Fields → Bool) (items : List Fields) :
    Except Refusal Page :=
  match asked.cursor with
  | some cursor => do
    if asked.limit.isSome ∨ asked.status.isSome then
      .error (.problem (invalidCursor ("After the first " ++ l.noun ++ " page, send only cursor.")))
    else
      validateCursor cursor l.kind tenantId l.parentId
      let marks ← readMarks cursor
      let statuses := (cursor.get "statuses").getD .null
      pure (l.page tenantId marks statuses (keep statuses) items)
  | none =>
    let statuses := statusValue asked.status
    pure (l.page tenantId (l.firstMarks asked.limit items) statuses (keep statuses) items)

end Listing

/-- `item["status"] in set(statuses)`. -/
def inStatuses (statuses : Value) (item : Fields) : Bool :=
  match statuses with
  | .list values => values.any fun value => ((item.get "status").getD .null).equal value
  | _ => false

/-! ### The four listings -/

def runPublicFields : List String :=
  ["api_version", "run_id", "dataset_version_id", "phase", "status", "outcome", "plan_version", "run_revision",
    "snapshot_seq", "retained_from_seq", "contract_versions", "progress", "stages", "blocking", "latest_output_refs",
    "available_actions", "budget_usage", "created_at", "updated_at", "links", "callback_uri", "callback_url",
    "webhook_endpoint_ids"]

/-- `_public_run`. -/
def publicRun (run : Fields) : Fields :=
  let visible := run.only (· ∈ runPublicFields)
  if run.has "callback_uri" ∨ run.has "callback_url" then
    let callbackUri := match run.get "callback_uri" with
      | some uri => uri
      | none => (run.get "callback_url").getD .null
    (visible.set "callback_uri" callbackUri).set "callback_url" callbackUri
  else visible

/-- `_public_approval` and `_public_webhook_delivery`. -/
def publicItem (item : Fields) : Fields := item.only (· ≠ "tenant_id")

def publicWebhookEndpoint (endpoint : Fields) : Fields :=
  endpoint.only (· ∉ ["tenant_id", "signing_secret", "previous_signing_secret", "previous_secret_valid_until"])

def runStatuses : List String :=
  ["QUEUED", "RUNNING", "WAITING_USER", "WAITING_APPROVAL", "PAUSE_REQUESTED", "PAUSED", "RETRYING", "CANCEL_REQUESTED",
    "TERMINAL"]

def deliveryStatuses : List String := ["PENDING", "DELIVERING", "SUCCEEDED", "RETRYING", "EXHAUSTED"]

/-- The tenant's items on a shelf, as they are shown. -/
def shownItems (tenantId : String) (shelf : Shelf) (view : Fields → Fields) (m : Memory) : List Fields :=
  (((shelf.items m).map Prod.snd).filter (owns tenantId)).map view

def runsListing : Listing := ⟨"runs", "Run", "run_id", none, true⟩

def listRuns (tenantId : String) (asked : Asked) (m : Memory) : Except Refusal Page := do
  validateFilter asked.status runStatuses "Run status"
  let allRuns := sortBy runsListing.idOf (shownItems tenantId .runs publicRun m)
  runsListing.answer tenantId asked (fun statuses item => statuses.equal .null || inStatuses statuses item) allRuns

def approvalsListing (runId : String) : Listing := ⟨"approvals", "Approval", "approval_id", some runId, false⟩

def listApprovals (tenantId runId : String) (asked : Asked) (m : Memory) : Except Refusal Page := do
  let _ ← owned tenantId (m.runs.get runId)
  let l := approvalsListing runId
  l.answer tenantId asked (fun _ _ => true) (sortBy l.idOf (shownItems tenantId (.approvals runId) publicItem m))

def webhookEndpointsListing : Listing := ⟨"webhook-endpoints", "Webhook", "webhook_endpoint_id", none, false⟩

def listWebhookEndpoints (tenantId : String) (asked : Asked) (m : Memory) : Except Refusal Page :=
  let l := webhookEndpointsListing
  l.answer tenantId asked (fun _ _ => true)
    (sortBy l.idOf (shownItems tenantId .webhookEndpoints publicWebhookEndpoint m))

def webhookDeliveriesListing (endpointId : String) : Listing :=
  ⟨"webhook-deliveries", "Delivery", "delivery_id", some endpointId, true⟩

/-- The only listing whose status filter comes before its first marks. -/
def listWebhookDeliveries (tenantId endpointId : String) (asked : Asked) (m : Memory) : Except Refusal Page := do
  let _ ← owned tenantId (m.webhookEndpoints.get endpointId)
  validateFilter asked.status deliveryStatuses "Webhook delivery status"
  let deliveries := (shownItems tenantId (.webhookDeliveries endpointId) publicItem m).filter fun item =>
    asked.status.isNone || inStatuses (Listing.statusValue asked.status) item
  let l := webhookDeliveriesListing endpointId
  l.answer tenantId asked (fun statuses item => Store.falsy statuses || inStatuses statuses item)
    (sortBy l.idOf deliveries)

/-! ### Cursors are read as they were written -/

namespace Listing

variable {l : Listing} {tenantId : String}

theorem readMarks_cursor {marks : Marks} (hlimit : 1 ≤ marks.limit) (hmark : 0 ≤ marks.highWatermark) (statuses : Value) :
    readMarks (l.cursor tenantId marks statuses) = .ok marks := by
  have hlow : ¬ (marks.limit < 1 ∨ marks.highWatermark < 0) := by omega
  simp [readMarks, cursor, intOf, Store.toInt, Dict.get_cons, Except.mapError, Bind.bind, Except.bind, if_neg hlow]

theorem validate_cursor (marks : Marks) (statuses : Value) :
    validateCursor (l.cursor tenantId marks statuses) l.kind tenantId l.parentId = .ok () := by
  cases hparent : l.parentId with
  | none => simp [validateCursor, cursor, Dict.get_cons, Value.equal, hparent]
  | some parentId => simp [validateCursor, cursor, Dict.get_cons, Value.equal, hparent]

/-- A page cuts what is left of the ids of the sorted items. -/
theorem page_cuts {marks : Marks} (hlimit : 1 ≤ marks.limit) {items : List Fields} {keep : Fields → Bool}
    (hkeep : ∀ item, keep item = true) (statuses : Value) {asks : Asked → String → Prop}
    (hasks : ∀ k, asks ⟨some (l.cursor tenantId { marks with position := k } statuses), none, none⟩ k) :
    Paging.Cuts asks l.idOf id marks.limit.toNat
      ((items.map l.idOf).filter fun k => marks.position < k ∧ k ≤ marks.highId)
      (l.page tenantId marks statuses keep items).turn := by
  have hids : ((items.map l.idOf).filter fun k => marks.position < k ∧ k ≤ marks.highId)
      = (items.filter fun item => marks.position < l.idOf item ∧ l.idOf item ≤ marks.highId).map l.idOf := by
    rw [List.filter_map]
    rfl
  rw [hids]
  generalize hwindow : (items.filter fun item => marks.position < l.idOf item ∧ l.idOf item ≤ marks.highId) = window
  have hall : window.filter keep = window := List.filter_eq_self.mpr fun item _ => hkeep item
  have hpage : (l.page tenantId marks statuses keep items).turn = (window.take marks.limit.toNat,
      (if marks.limit.toNat < window.length then
        (window.take marks.limit.toNat).getLast?.map fun last =>
          l.cursor tenantId { marks with position := l.idOf last } statuses
      else none).map fun cursor => ⟨some cursor, none, none⟩) := by
    simp only [Page.turn, page, hwindow, hall, decide_eq_true_eq]
  rw [hpage]
  refine ⟨List.map_take, fun hmore => ?_, fun hdone => ?_⟩
  · rw [List.length_map] at hmore
    have hne : window.take marks.limit.toNat ≠ [] := by
      rw [Ne, List.take_eq_nil_iff, not_or]
      refine ⟨by omega, ?_⟩
      rintro rfl
      simp at hmore
    obtain ⟨last, hlast⟩ := Option.ne_none_iff_exists'.mp (mt List.getLast?_eq_none_iff.mp hne)
    refine ⟨_, l.idOf last, ?_, ?_, hasks (l.idOf last)⟩
    · rw [if_pos hmore, hlast]
      rfl
    · rw [← List.map_take, List.getLast?_map, hlast]
      rfl
  · rw [List.length_map] at hdone
    rw [if_neg (Nat.not_lt.mpr hdone)]
    rfl

end Listing

end AutomlApi.Pages
