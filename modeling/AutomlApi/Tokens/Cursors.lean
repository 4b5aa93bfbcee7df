import AutomlApi.Tokens.Sealed
import AutomlApi.Requests.Idempotent

/-! The cursors of pages: a payload goes out signed, and comes back only as it was issued. -/

namespace AutomlApi.Tokens

open Requests (APIProblem)

def invalidCursor : APIProblem where
  status := 400
  code := "invalid_cursor"
  title := "Invalid cursor"
  detail := "The cursor is malformed or was issued for a different query."

/-- What comes out of `decode_cursor`: the problem, or the one exception that it does not catch. -/
inductive CursorError where
  | problem (problem : APIProblem)
  | recursion

section Decode

variable (mac : Bytes → Digest) (loads : Bytes → Except LoadError Json)

/-- `json.loads` of an authentic payload, which has to be an object. -/
def objectOf (raw : Bytes) : Except CursorError (Dict String Json) :=
  match loads raw with
  | .ok (.object fields) => .ok fields
  | .error .recursion => .error .recursion
  | _ => .error (.problem invalidCursor)

/-- `decode_cursor`. -/
def decodeCursor (cursor : Text) : Except CursorError (Dict String Json) :=
  match combinedOf cursor with
  | none => .error (.problem invalidCursor)
  | some combined =>
    if suppliedOf combined ≠ (mac (rawOf combined)).1 then .error (.problem invalidCursor)
    else objectOf loads (rawOf combined)

/-! ### Collections -/

/-- The collections that are read in pages, with the resource that each is of. -/
inductive Collection where
  | runs
  | events (runId : String)
  | outputs (runId : String)
  | decisionPackets (runId : String)
  | approvals (runId : String)
  | webhookEndpoints
  | webhookDeliveries (webhookEndpointId : String)
  deriving DecidableEq

def Collection.kind : Collection → String
  | runs => "runs"
  | events _ => "events"
  | outputs _ => "outputs"
  | decisionPackets _ => "decision-packets"
  | approvals _ => "approvals"
  | webhookEndpoints => "webhook-endpoints"
  | webhookDeliveries _ => "webhook-deliveries"

def Collection.parentId : Collection → Option String
  | events runId | outputs runId | decisionPackets runId | approvals runId => some runId
  | webhookDeliveries webhookEndpointId => some webhookEndpointId
  | runs | webhookEndpoints => none

/-- `_validate_cursor`. -/
def validateCursor (cursor : Text) (collection : Collection) (tenantId : String) : Except CursorError (Dict String Json) := do
  let payload ← decodeCursor mac loads cursor
  refuse (.problem invalidCursor) (¬ isStr collection.kind (field payload "kind") ∨ ¬ isStr tenantId (field payload "tenant_id") ∨
    ∃ parentId ∈ collection.parentId, ¬ isStr parentId (field payload "parent_id"))
  return payload

end Decode

/-- The cursor of a page: where it stands in the collection. -/
structure PageCursor where
  collection : Collection
  tenantId : String
  position : Dict String Json
  keyed : (Json.object position).Keyed
  readable : (Json.object position).readable = true
  fresh : ∀ name ∈ ["kind", "tenant_id", "parent_id"], name ∉ position.map Prod.fst

/-- What a listing writes into a cursor. -/
def PageCursor.fields (c : PageCursor) : Dict String Json :=
  ("kind", .str c.collection.kind) :: ("tenant_id", .str c.tenantId) ::
    (c.collection.parentId.toList.map (fun parentId => ("parent_id", .str parentId)) ++ c.position)

theorem PageCursor.forall_fields (c : PageCursor) {q : Json → Prop} (hstr : ∀ s, q (.str s)) (hposition : ∀ p ∈ c.position, q p.2) :
    ∀ p ∈ c.fields, q p.2 := by
  refine List.forall_mem_cons.mpr ⟨hstr _, List.forall_mem_cons.mpr ⟨hstr _, fun p hp => ?_⟩⟩
  rcases List.mem_append.mp hp with hp | hp
  · obtain ⟨parentId, -, rfl⟩ := List.mem_map.mp hp
    exact hstr parentId
  · exact hposition p hp

theorem PageCursor.keyed_fields (c : PageCursor) : (Json.object c.fields).Keyed := by
  have hkeyed := c.keyed
  rw [Json.Keyed, Json.keyedFields_iff] at hkeyed ⊢
  obtain ⟨hkind, htenant, hparent⟩ : "kind" ∉ c.position.map Prod.fst ∧ "tenant_id" ∉ c.position.map Prod.fst ∧
      "parent_id" ∉ c.position.map Prod.fst := by
    have hfresh := c.fresh
    simpa using hfresh
  refine ⟨?_, c.forall_fields Json.keyed_str hkeyed.2⟩
  rw [fields]
  cases c.collection.parentId with
  | none =>
    simp only [Option.toList_none, List.map_nil, List.nil_append, List.map_cons, List.nodup_cons, List.mem_cons, not_or]
    exact ⟨⟨by decide, hkind⟩, htenant, hkeyed.1⟩
  | some parentId =>
    simp only [Option.toList_some, List.map_cons, List.map_nil, List.cons_append, List.nil_append, List.nodup_cons, List.mem_cons,
      not_or]
    exact ⟨⟨by decide, by decide, hkind⟩, ⟨by decide, htenant⟩, hparent, hkeyed.1⟩

def PageCursor.payload (c : PageCursor) : Payload where
  fields := c.fields
  keyed := c.keyed_fields
  readable := by
    have hreadable := c.readable
    rw [Json.readable, Json.readableFields_iff] at hreadable ⊢
    exact c.forall_fields (q := fun j => j.readable = true) (fun s => by rw [Json.readable]) hreadable

theorem PageCursor.field_kind (c : PageCursor) : field c.fields "kind" = .str c.collection.kind := rfl

theorem PageCursor.field_tenantId (c : PageCursor) : field c.fields "tenant_id" = .str c.tenantId := by
  rw [field, fields, Dict.get_cons, if_neg (by simp), Dict.get_cons, if_pos rfl]
  rfl

theorem PageCursor.field_parentId (c : PageCursor) {parentId : String} :
    field c.fields "parent_id" = .str parentId ↔ c.collection.parentId = some parentId := by
  rw [field, fields, Dict.get_cons, if_neg (by simp), Dict.get_cons, if_neg (by simp)]
  cases c.collection.parentId with
  | none =>
    have hnone : Dict.get c.position "parent_id" = none := by
      refine Option.not_isSome_iff_eq_none.mp fun h => ?_
      exact c.fresh "parent_id" (by decide) (Dict.isSome_get.mp h)
    rw [Option.toList_none, List.map_nil, List.nil_append, hnone]
    simp [Json.null]
  | some p =>
    rw [Option.toList_some, List.map_cons, List.map_nil, List.cons_append, Dict.get_cons, if_pos rfl]
    simp

/-! ### What is read -/

variable {mac : Bytes → Digest} {depth : ℕ} {loads : Bytes → Except LoadError Json}

theorem decodeCursor_of_carries {cursor : Text} {raw : Bytes} (h : Carries mac cursor raw) :
    decodeCursor mac loads cursor = objectOf loads raw := by
  obtain ⟨combined, hcombined, hraw, hsupplied⟩ := carries_iff.mp h
  rw [decodeCursor, hcombined]
  show (if _ then _ else _) = _
  rw [if_neg (not_not.mpr hsupplied), hraw]

theorem decodeCursor_of_not {cursor : Text} (h : ∀ raw, ¬ Carries mac cursor raw) :
    decodeCursor mac loads cursor = .error (.problem invalidCursor) := by
  unfold decodeCursor
  split
  · rfl
  · next combined hcombined =>
    exact if_pos fun hsupplied => h _ (carries_iff.mpr ⟨combined, hcombined, rfl, hsupplied⟩)

theorem decodeCursor_eq_ok {cursor : Text} {fields : Dict String Json} :
    decodeCursor mac loads cursor = .ok fields ↔ ∃ raw, Carries mac cursor raw ∧ loads raw = .ok (.object fields) := by
  constructor
  · intro h
    by_cases hcarries : ∃ raw, Carries mac cursor raw
    · obtain ⟨raw, hraw⟩ := hcarries
      rw [decodeCursor_of_carries hraw, objectOf] at h
      split at h
      · next hloads =>
        cases h
        exact ⟨raw, hraw, hloads⟩
      · cases h
      · cases h
    · rw [decodeCursor_of_not (not_exists.mp hcarries)] at h
      cases h
  · rintro ⟨raw, hraw, hloads⟩
    rw [decodeCursor_of_carries hraw, objectOf, hloads]

theorem decodeCursor_eq_error {cursor : Text} {e : CursorError} (h : decodeCursor mac loads cursor = .error e) :
    e = .problem invalidCursor ∨ e = .recursion ∧ ∃ raw, Carries mac cursor raw ∧ loads raw = .error .recursion := by
  by_cases hcarries : ∃ raw, Carries mac cursor raw
  · obtain ⟨raw, hraw⟩ := hcarries
    rw [decodeCursor_of_carries hraw, objectOf] at h
    split at h
    · cases h
    · next hloads =>
      cases h
      exact .inr ⟨rfl, raw, hraw, hloads⟩
    · cases h
      exact .inl rfl
  · rw [decodeCursor_of_not (not_exists.mp hcarries)] at h
    cases h
    exact .inl rfl

theorem decodeCursor_written (h : Agrees depth loads) {p : Payload} (hp : p.fits depth) {cursor : Text}
    (hcursor : Carries mac cursor p.written) : decodeCursor mac loads cursor = .ok p.read := by
  refine decodeCursor_eq_ok.mpr ⟨_, hcursor, ?_⟩
  rw [h.loads_written hp, sorted_json]

/-! ### What is accepted -/

/-- The payload is of the collection and the tenant. -/
def IsOf (collection : Collection) (tenantId : String) (fields : Dict String Json) : Prop :=
  field fields "kind" = .str collection.kind ∧ field fields "tenant_id" = .str tenantId ∧
    ∀ parentId ∈ collection.parentId, field fields "parent_id" = .str parentId

theorem validateCursor_eq_ok {cursor : Text} {collection : Collection} {tenantId : String} {fields : Dict String Json} :
    validateCursor mac loads cursor collection tenantId = .ok fields ↔
      decodeCursor mac loads cursor = .ok fields ∧ IsOf collection tenantId fields := by
  have hguard : ∀ payload : Dict String Json, ¬ (¬ isStr collection.kind (field payload "kind") ∨
      ¬ isStr tenantId (field payload "tenant_id") ∨
        ∃ parentId ∈ collection.parentId, ¬ isStr parentId (field payload "parent_id")) ↔ IsOf collection tenantId payload := by
    intro payload
    simp only [IsOf, ← isStr_iff]
    push Not
    rfl
  unfold validateCursor
  constructor
  · intro h
    obtain ⟨payload, hpayload, h⟩ := except_bind_eq_ok h
    obtain ⟨hok, h⟩ := refuse_bind_eq_ok h
    cases h
    exact ⟨hpayload, (hguard _).mp hok⟩
  · rintro ⟨hpayload, hof⟩
    rw [hpayload, except_ok_bind, refuse, if_neg ((hguard _).mpr hof)]
    rfl

theorem Collection.eq_of_kind {a b : Collection} (hkind : a.kind = b.kind)
    (hparent : ∀ parentId ∈ b.parentId, a.parentId = some parentId) : a = b := by
  cases a <;> cases b <;> simp [kind] at hkind
  case runs.runs => rfl
  case webhookEndpoints.webhookEndpoints => rfl
  all_goals
    cases hparent _ rfl
    rfl

theorem PageCursor.isOf_iff (c : PageCursor) (collection : Collection) (tenantId : String) :
    IsOf collection tenantId c.payload.read ↔ c.collection = collection ∧ c.tenantId = tenantId := by
  unfold IsOf
  simp only [field_read_str]
  show (field c.fields "kind" = _ ∧ field c.fields "tenant_id" = _ ∧ ∀ parentId ∈ _, field c.fields "parent_id" = _) ↔ _
  rw [c.field_kind, c.field_tenantId]
  simp only [c.field_parentId, Json.str.injEq]
  constructor
  · rintro ⟨hkind, htenant, hparent⟩
    exact ⟨Collection.eq_of_kind hkind hparent, htenant⟩
  · rintro ⟨rfl, rfl⟩
    exact ⟨rfl, rfl, fun parentId h => h⟩

/-! ### Cursors -/

variable (mac depth loads) in
/-- The payload goes out as a cursor, and is read back the same. -/
def Returns (p : Payload) : Prop :=
  ∃ cursor, issue mac depth p = .ok cursor ∧
    ∃ fields, decodeCursor mac loads cursor = .ok fields ∧ (Json.object fields).Same p.json

variable (mac depth loads) in
/-- Cursors come back as they went out, and no other ones do. -/
structure CursorsHold : Prop where
  /-- A payload within the limits goes out and comes back. -/
  round : ∀ p : Payload, p.fits depth → Returns mac depth loads p
  /-- No other payload goes out. -/
  beyond : ∀ p : Payload, p.fits depth = false → ∃ e, issue mac depth p = .error e
  /-- What is read is a payload before its code. -/
  authentic : ∀ cursor fields, decodeCursor mac loads cursor = .ok fields →
    ∃ raw, combinedOf cursor = some (raw ++ (mac raw).1) ∧ loads raw = .ok (.object fields)
  /-- Any other text is the problem, unless somebody else has made a code. -/
  refused : ∀ cursor e, decodeCursor mac loads cursor = .error e →
    e = .problem invalidCursor ∨ e = .recursion ∧ ∃ raw, Carries mac cursor raw ∧ loads raw = .error .recursion
  /-- A cursor is accepted for what its payload says. -/
  agrees : ∀ cursor collection tenantId fields, validateCursor mac loads cursor collection tenantId = .ok fields →
    IsOf collection tenantId fields
  /-- The cursor of a page goes out and is accepted for its collection and its tenant. -/
  accepted : ∀ c : PageCursor, c.payload.fits depth → ∃ cursor, issue mac depth c.payload = .ok cursor ∧
    ∃ fields, validateCursor mac loads cursor c.collection c.tenantId = .ok fields ∧ (Json.object fields).Same c.payload.json
  /-- Where nobody else makes codes, a text is accepted if it was issued for the same collection, tenant and
  parent, and is the problem if it was not. -/
  issued : ∀ (issued : List PageCursor) cursor, (∀ c ∈ issued, c.payload.fits depth) →
    Unforged mac (issued.map PageCursor.payload) cursor → ∀ collection tenantId,
      (∃ c ∈ issued, c.collection = collection ∧ c.tenantId = tenantId ∧
        ∃ fields, validateCursor mac loads cursor collection tenantId = .ok fields ∧ (Json.object fields).Same c.payload.json) ∨
      validateCursor mac loads cursor collection tenantId = .error (.problem invalidCursor)

theorem validateCursor_of_not {cursor : Text} {collection : Collection} {tenantId : String} {fields : Dict String Json}
    (h : decodeCursor mac loads cursor = .ok fields) (hof : ¬ IsOf collection tenantId fields) :
    validateCursor mac loads cursor collection tenantId = .error (.problem invalidCursor) := by
  cases hvalidate : validateCursor mac loads cursor collection tenantId with
  | ok fields' =>
    obtain ⟨hdecode, hof'⟩ := validateCursor_eq_ok.mp hvalidate
    rw [h] at hdecode
    cases hdecode
    exact absurd hof' hof
  | error e =>
    rw [validateCursor, h, except_ok_bind, refuse] at hvalidate
    split at hvalidate
    · cases hvalidate
      rfl
    · cases hvalidate

theorem validateCursor_of_error {cursor : Text} {e : CursorError} (h : decodeCursor mac loads cursor = .error e)
    (collection : Collection) (tenantId : String) : validateCursor mac loads cursor collection tenantId = .error e := by
  rw [validateCursor, h]
  rfl

theorem cursors_hold (h : Agrees depth loads) : CursorsHold mac depth loads where
  round p hp := ⟨_, issue_of_fits hp, p.read, decodeCursor_written h hp (carries_sealed mac p.written), read_same p⟩
  beyond p hp := issue_of_not_fits hp
  authentic cursor fields hdecode := decodeCursor_eq_ok.mp hdecode
  refused cursor e hdecode := decodeCursor_eq_error hdecode
  agrees cursor collection tenantId fields hvalidate := (validateCursor_eq_ok.mp hvalidate).2
  accepted c hc := by
    have hdecode := decodeCursor_written h hc (carries_sealed mac c.payload.written)
    exact ⟨_, issue_of_fits hc, _, validateCursor_eq_ok.mpr ⟨hdecode, (c.isOf_iff _ _).mpr ⟨rfl, rfl⟩⟩, read_same c.payload⟩
  issued issued cursor hfits hunforged collection tenantId := by
    by_cases hcarries : ∃ raw, Carries mac cursor raw
    · obtain ⟨raw, hraw⟩ := hcarries
      obtain ⟨p, hp, rfl⟩ := hunforged raw hraw
      obtain ⟨c, hc, rfl⟩ := List.mem_map.mp hp
      have hdecode := decodeCursor_written h (hfits c hc) hraw
      by_cases hof : IsOf collection tenantId c.payload.read
      · obtain ⟨hcollection, htenant⟩ := (c.isOf_iff _ _).mp hof
        exact .inl ⟨c, hc, hcollection, htenant, _, validateCursor_eq_ok.mpr ⟨hdecode, hof⟩, read_same c.payload⟩
      · exact .inr (validateCursor_of_not hdecode hof)
    · exact .inr (validateCursor_of_error (decodeCursor_of_not (not_exists.mp hcarries)) collection tenantId)

end AutomlApi.Tokens
