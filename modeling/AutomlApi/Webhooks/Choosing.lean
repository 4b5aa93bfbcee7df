import Mathlib.Data.List.Sort
import AutomlApi.Library.Paging
import AutomlApi.Pages.Listings
import AutomlApi.Requests.Idempotent
import AutomlApi.Store.Outbox

/-! Which webhook endpoints a run is created with. What the request names is looked up among the
endpoints of its tenant, and a callback has to be one of them; the events that a callback
is for are then announced to it, and to it alone. -/

namespace AutomlApi.Choosing

open Store Outbox
open Pages (owns)
open Requests (APIProblem)

/-! ### The choice -/

/-- What a request to create a run says of webhooks. -/
structure Asked where
  callbackUri : Option String
  callbackUrl : Option String
  webhookEndpointIds : List String

inductive Refusal where
  | problem (problem : APIProblem)
  | fault (fault : Fault)

def endpointMismatch (detail : String) : APIProblem where
  status := 422
  code := "callback_endpoint_mismatch"
  title := "Callback endpoint does not match"
  detail := detail

def aliasMismatch : APIProblem := endpointMismatch "callback_uri and callback_url must identify the same endpoint."

def endpointIdsMismatch : APIProblem :=
  endpointMismatch "callback_uri and webhook_endpoint_ids must select the same endpoint."

def endpointNotFound (missing : List String) : APIProblem where
  status := 422
  code := "webhook_endpoint_not_found"
  title := "Webhook endpoint not found"
  detail := "Every webhook_endpoint_id must belong to the current tenant."
  extras := [("webhook_endpoint_ids", .list (missing.map .str))]

def endpointNotActive (inactive : List String) : APIProblem where
  status := 409
  code := "webhook_endpoint_not_active"
  title := "Webhook endpoint is not active"
  detail := "Enable every selected webhook endpoint before creating the Run."
  extras := [("webhook_endpoint_ids", .list (inactive.map .str))]

def endpointNotRegistered : APIProblem where
  status := 422
  code := "callback_endpoint_not_registered"
  title := "Callback endpoint is not registered"
  detail := "Register this exact URL with POST /v1/webhook-endpoints, " ++
    "then use the returned signing secret at the callback receiver."

def endpointAmbiguous : APIProblem where
  status := 409
  code := "callback_endpoint_ambiguous"
  title := "Callback endpoint is ambiguous"
  detail := "Disable duplicate endpoints so the callback URL identifies exactly one."

def eventTypesIncomplete (missing : List String) : APIProblem where
  status := 422
  code := "callback_event_types_incomplete"
  title := "Callback event subscription is incomplete"
  detail := "callback_uri requires '*', or stage-completed, failed, and canceled Run event subscriptions."
  extras := [("missing_event_types", .list (missing.map .str))]

/-- `sorted` of a set of texts. -/
def sorted (texts : List String) : List String := texts.dedup.insertionSort (· ≤ ·)

def isActive (endpoint : Fields) : Bool := ((endpoint.get "status").getD .null).equal (.str "ACTIVE")

/-- `{str(item["webhook_endpoint_id"]): item for item in endpoints}`. -/
def byId (str : Value → String) : List Fields → Except Fault (Dict String Fields)
  | [] => .ok []
  | endpoint :: rest =>
    match endpoint.get "webhook_endpoint_id" with
    | none => .error (.key "webhook_endpoint_id")
    | some id => (byId str rest).map fun d => Dict.update [(str id, endpoint)] d

/-- The events that a callback is for. -/
def requiredTypes : List String := ["run.stage_completed.v1", "run.failed.v1", "run.canceled.v1"]

def subscribes (types : List Value) (type : String) : Bool := types.any (Value.equal (.str type))

/-- The types of events that a callback has to take. -/
def checkCallbackTypes (endpoint : Fields) : Except Refusal Unit :=
  match pySet ((endpoint.get "event_types").getD .null) with
  | .error fault => .error (.fault fault)
  | .ok types =>
    let missing := sorted (requiredTypes.filter fun type => !subscribes types type)
    if ¬ subscribes types "*" ∧ missing ≠ [] then .error (.problem (eventTypesIncomplete missing)) else .ok ()

/-- The id of the endpoint at the URL of a callback. -/
def callbackId (str : Value → String) (asked : Asked) (requested : List String) (endpoint : Fields) :
    Except Refusal String := do
  if asked.callbackUri.isSome then checkCallbackTypes endpoint
  match endpoint.get "webhook_endpoint_id" with
  | none => .error (.fault (.key "webhook_endpoint_id"))
  | some id => if requested ≠ [] ∧ requested ≠ [str id] then .error (.problem endpointIdsMismatch) else .ok (str id)

/-- The endpoint of a callback, which is then the only one. -/
def resolveCallback (str : Value → String) (asked : Asked) (requested : List String) (endpoints : List Fields)
    (url : String) : Except Refusal String :=
  match endpoints.filter fun endpoint => str ((endpoint.get "url").getD .null) = url && isActive endpoint with
  | [] => .error (.problem endpointNotRegistered)
  | [endpoint] => callbackId str asked requested endpoint
  | _ => .error (.problem endpointAmbiguous)

/-- `_resolve_run_webhooks`. -/
def resolveRunWebhooks (str : Value → String) (tenantId : String) (asked : Asked) (m : Memory) :
    Except Refusal (Option String × List String) :=
  match asked.callbackUri, asked.callbackUrl with
  | some uri, some url => if uri ≠ url then .error (.problem aliasMismatch) else resolve (some uri)
  | some uri, none => resolve (some uri)
  | none, url => resolve url
where
  /-- What follows the comparison of the two names of the callback. -/
  resolve (normalizedUrl : Option String) : Except Refusal (Option String × List String) :=
    let requested := asked.webhookEndpointIds.dedup
    let endpoints := (m.webhookEndpoints.map Prod.snd).filter (owns tenantId)
    match byId str endpoints with
    | .error fault => .error (.fault fault)
    | .ok known =>
      let missing := sorted (requested.filter fun id => !known.has id)
      if missing ≠ [] then .error (.problem (endpointNotFound missing))
      else
        let inactive := sorted (requested.filter fun id => !((known.get id).map isActive).getD false)
        if inactive ≠ [] then .error (.problem (endpointNotActive inactive))
        else
          match normalizedUrl with
          | none => .ok (none, sorted requested)
          | some url => (resolveCallback str asked requested endpoints url).map fun id => (some url, [id])

/-! ### What is chosen -/

/-- The endpoints are under their own ids, each once. -/
structure Filed (m : Memory) : Prop where
  named : ∀ id endpoint, m.webhookEndpoints.get id = some endpoint →
    endpoint.get "webhook_endpoint_id" = some (.str id)
  nodup : (m.webhookEndpoints.map Prod.fst).Nodup

/-- An active endpoint of the tenant. -/
structure Active (m : Memory) (tenantId id : String) (endpoint : Fields) : Prop where
  there : m.webhookEndpoints.get id = some endpoint
  owned : owns tenantId endpoint
  active : isActive endpoint

/-- An active endpoint of the tenant at this URL. -/
structure Calls (str : Value → String) (m : Memory) (tenantId url id : String) (endpoint : Fields) : Prop
    extends Active m tenantId id endpoint where
  url : str ((endpoint.get "url").getD .null) = url

/-- The endpoint takes the events that a callback is for. -/
def TakesCallbacks (endpoint : Fields) : Prop :=
  ∃ types, pySet ((endpoint.get "event_types").getD .null) = .ok types ∧
    (subscribes types "*" ∨ ∀ type ∈ requiredTypes, subscribes types type)

/-- What a choice is: the endpoints that the request names, all of them active, or the only one at the URL of the
callback, which takes what a callback is for. -/
structure Chosen (str : Value → String) (tenantId : String) (asked : Asked) (m : Memory) (url : Option String)
    (ids : List String) : Prop where
  agree : ∀ uri ∈ asked.callbackUri, ∀ url' ∈ asked.callbackUrl, uri = url'
  normalized : url = asked.callbackUri.or asked.callbackUrl
  active : ∀ id ∈ asked.webhookEndpointIds, ∃ endpoint, Active m tenantId id endpoint
  named : url = none → ids.Pairwise (· < ·) ∧ ∀ id, id ∈ ids ↔ id ∈ asked.webhookEndpointIds
  callback : ∀ u ∈ url, ∃ id endpoint, ids = [id] ∧ (∀ id' ∈ asked.webhookEndpointIds, id' = id) ∧
    Calls str m tenantId u id endpoint ∧ (∀ id' endpoint', Calls str m tenantId u id' endpoint' → id' = id) ∧
    (asked.callbackUri.isSome → TakesCallbacks endpoint)

section

variable {str : Value → String} {tenantId : String} {asked : Asked} {m : Memory}

theorem mem_sorted {texts : List String} {text : String} : text ∈ sorted texts ↔ text ∈ texts := by
  simp [sorted, List.mem_insertionSort]

theorem sorted_eq_nil {texts : List String} : sorted texts = [] ↔ texts = [] := by
  rw [List.eq_nil_iff_forall_not_mem, List.eq_nil_iff_forall_not_mem]
  simp only [mem_sorted]

theorem pairwise_sorted (texts : List String) : (sorted texts).Pairwise (· < ·) := by
  have hle := List.pairwise_insertionSort (· ≤ ·) texts.dedup
  have hnodup : (sorted texts).Nodup := (List.perm_insertionSort _ _).nodup_iff.mpr (List.nodup_dedup texts)
  exact (hle.and hnodup).imp fun hab => lt_of_le_of_ne hab.1 hab.2

/-- The entries of the tenant. -/
def ownEntries (tenantId : String) (m : Memory) : Dict String Fields :=
  m.webhookEndpoints.filter fun p => owns tenantId p.2

theorem nodup_ownEntries (hm : Filed m) : ((ownEntries tenantId m).map Prod.fst).Nodup :=
  hm.nodup.sublist (List.filter_sublist.map Prod.fst)

theorem mem_ownEntries (hm : Filed m) {p : String × Fields} :
    p ∈ ownEntries tenantId m ↔ m.webhookEndpoints.get p.1 = some p.2 ∧ owns tenantId p.2 := by
  rw [ownEntries, List.mem_filter]
  refine and_congr_left fun _ => ⟨Dict.get_of_mem hm.nodup, Dict.mem_of_get⟩

theorem get_ownEntries (hm : Filed m) {id : String} {endpoint : Fields} :
    (ownEntries tenantId m).get id = some endpoint ↔
      m.webhookEndpoints.get id = some endpoint ∧ owns tenantId endpoint :=
  ⟨fun h => (mem_ownEntries hm).mp (Dict.mem_of_get h),
    fun h => Dict.get_of_mem (p := (id, endpoint)) (nodup_ownEntries hm) ((mem_ownEntries hm).mpr h)⟩

theorem byId_eq (hstr : ∀ s, str (.str s) = s) {d : Dict String Fields} (hnodup : (d.map Prod.fst).Nodup)
    (hnamed : ∀ p ∈ d, p.2.get "webhook_endpoint_id" = some (.str p.1)) : byId str (d.map Prod.snd) = .ok d := by
  induction d with
  | nil => rfl
  | cons p d ih =>
    obtain ⟨hfresh, hnodup'⟩ := List.nodup_cons.mp hnodup
    rw [List.map_cons, byId, hnamed p List.mem_cons_self]
    dsimp only
    rw [ih hnodup' fun q hq => hnamed q (List.mem_cons_of_mem p hq), hstr]
    exact congrArg Except.ok (Dict.update_of_nodup (d := [p]) hnodup)

theorem endpoints_eq (tenantId : String) (m : Memory) :
    (m.webhookEndpoints.map Prod.snd).filter (owns tenantId) = (ownEntries tenantId m).map Prod.snd := by
  rw [List.filter_map]
  rfl

theorem checkCallbackTypes_ok {endpoint : Fields} :
    checkCallbackTypes endpoint = .ok () ↔ TakesCallbacks endpoint := by
  unfold checkCallbackTypes TakesCallbacks
  cases pySet ((endpoint.get "event_types").getD .null) with
  | error fault => simp
  | ok types =>
    have hincomplete :
        (¬ subscribes types "*" ∧ sorted (requiredTypes.filter fun type => !subscribes types type) ≠ []) ↔
        ¬ (subscribes types "*" ∨ ∀ type ∈ requiredTypes, subscribes types type) := by
      rw [ne_eq, sorted_eq_nil, List.filter_eq_nil_iff, not_or]
      simp
    dsimp only
    by_cases h : subscribes types "*" = true ∨ ∀ type ∈ requiredTypes, subscribes types type = true
    · rw [if_neg fun hi => hincomplete.mp hi h]
      simpa using h
    · rw [if_pos (hincomplete.mpr h)]
      simpa using h

/-- The entries that may be the callback's. -/
def candidates (str : Value → String) (tenantId : String) (m : Memory) (url : String) : List (String × Fields) :=
  (ownEntries tenantId m).filter fun p => str ((p.2.get "url").getD .null) = url && isActive p.2

theorem mem_candidates (hm : Filed m) {url : String} {p : String × Fields} :
    p ∈ candidates str tenantId m url ↔ Calls str m tenantId url p.1 p.2 := by
  rw [candidates, List.mem_filter, mem_ownEntries hm, Bool.and_eq_true, decide_eq_true_eq]
  constructor
  · rintro ⟨⟨hthere, howned⟩, hurl, hactive⟩
    exact ⟨⟨hthere, howned, hactive⟩, hurl⟩
  · intro h
    exact ⟨⟨h.there, h.owned⟩, h.url, h.active⟩

theorem candidates_eq (hm : Filed m) {url id : String} {endpoint : Fields} :
    candidates str tenantId m url = [(id, endpoint)] ↔ Calls str m tenantId url id endpoint ∧
      ∀ id' endpoint', Calls str m tenantId url id' endpoint' → id' = id := by
  constructor
  · intro h
    have hmem : ∀ {p}, p ∈ candidates str tenantId m url ↔ p = (id, endpoint) := by simp [h]
    refine ⟨(mem_candidates hm).mp (hmem.mpr rfl), fun id' endpoint' hcalls => ?_⟩
    have heq := hmem.mp ((mem_candidates (p := (id', endpoint')) hm).mpr hcalls)
    exact congrArg Prod.fst heq
  · rintro ⟨hcalls, honly⟩
    have hall : ∀ p ∈ candidates str tenantId m url, p = (id, endpoint) := fun p hp => by
      have hp' := (mem_candidates hm).mp hp
      have hid := honly p.1 p.2 hp'
      have hthere := hp'.there
      rw [hid, hcalls.there] at hthere
      exact Prod.ext hid (Option.some.inj hthere).symm
    have hnodup : (candidates str tenantId m url).Nodup :=
      List.Nodup.of_map Prod.fst ((nodup_ownEntries hm).sublist (List.filter_sublist.map Prod.fst))
    have hmem : (id, endpoint) ∈ candidates str tenantId m url := (mem_candidates hm).mpr hcalls
    cases hc : candidates str tenantId m url with
    | nil =>
      rw [hc] at hmem
      cases hmem
    | cons p rest =>
      rw [hc] at hall hnodup
      have hrest : rest = [] := List.eq_nil_iff_forall_not_mem.mpr fun q hq => by
        refine (List.nodup_cons.mp hnodup).1 ?_
        rwa [hall p List.mem_cons_self, ← hall q (List.mem_cons_of_mem p hq)]
      rw [hrest, hall p List.mem_cons_self]

theorem filter_endpoints (str : Value → String) (tenantId : String) (m : Memory) (url : String) :
    ((ownEntries tenantId m).map Prod.snd).filter
      (fun endpoint => str ((endpoint.get "url").getD .null) = url && isActive endpoint) =
      (candidates str tenantId m url).map Prod.snd := by
  rw [List.filter_map]
  rfl

theorem callbackId_ok (hstr : ∀ s, str (.str s) = s) {requested : List String} {endpoint : Fields} {id id' : String}
    (hnamed : endpoint.get "webhook_endpoint_id" = some (.str id')) :
    callbackId str asked requested endpoint = .ok id ↔
      id' = id ∧ (asked.callbackUri.isSome → TakesCallbacks endpoint) ∧ (requested = [] ∨ requested = [id]) := by
  rw [callbackId, hnamed]
  dsimp only
  rw [hstr]
  have hids : (if requested ≠ [] ∧ requested ≠ [id'] then .error (.problem endpointIdsMismatch) else .ok id' :
      Except Refusal String) = .ok id ↔ id' = id ∧ (requested = [] ∨ requested = [id]) := by
    by_cases h : requested = [] ∨ requested = [id']
    · rw [if_neg fun hr => h.elim hr.1 hr.2]
      constructor
      · intro heq
        cases heq
        exact ⟨rfl, h⟩
      · rintro ⟨rfl, -⟩
        rfl
    · rw [if_pos (not_or.mp h)]
      constructor
      · intro heq
        cases heq
      · rintro ⟨rfl, h'⟩
        exact absurd h' h
  cases huri : asked.callbackUri.isSome with
  | false =>
    rw [if_neg (by simp)]
    exact hids.trans (by simp)
  | true =>
    rw [if_pos rfl]
    cases hcheck : checkCallbackTypes endpoint with
    | error refusal =>
      have htakes : ¬ TakesCallbacks endpoint := fun h => by
        rw [checkCallbackTypes_ok.mpr h] at hcheck
        cases hcheck
      simp [Bind.bind, Except.bind, htakes]
    | ok _ =>
      have htakes : TakesCallbacks endpoint := checkCallbackTypes_ok.mp hcheck
      exact hids.trans (by simp [htakes])

theorem resolveCallback_ok (hstr : ∀ s, str (.str s) = s) (hm : Filed m) {requested : List String} {url id : String} :
    resolveCallback str asked requested ((ownEntries tenantId m).map Prod.snd) url = .ok id ↔
      ∃ endpoint, Calls str m tenantId url id endpoint ∧
        (∀ id' endpoint', Calls str m tenantId url id' endpoint' → id' = id) ∧
        (asked.callbackUri.isSome → TakesCallbacks endpoint) ∧ (requested = [] ∨ requested = [id]) := by
  rw [resolveCallback, filter_endpoints]
  rcases hc : candidates str tenantId m url with _ | ⟨p, _ | ⟨q, rest⟩⟩
  · refine iff_of_false (by simp) ?_
    rintro ⟨endpoint, hcalls, -⟩
    have hmem := (mem_candidates (p := (id, endpoint)) hm).mpr hcalls
    rw [hc] at hmem
    cases hmem
  · have hone := (candidates_eq hm).mp hc
    refine (callbackId_ok hstr (hm.named _ _ hone.1.there)).trans ⟨?_, ?_⟩
    · rintro ⟨rfl, htakes, hids⟩
      obtain ⟨hcalls, honly⟩ := hone
      exact ⟨p.2, hcalls, honly, htakes, hids⟩
    · rintro ⟨endpoint, hcalls, honly, htakes, hids⟩
      have heq := (candidates_eq hm).mpr ⟨hcalls, honly⟩
      rw [hc] at heq
      cases heq
      exact ⟨rfl, htakes, hids⟩
  · refine iff_of_false (by simp) ?_
    rintro ⟨endpoint, hcalls, honly, -⟩
    have heq := (candidates_eq hm).mpr ⟨hcalls, honly⟩
    rw [hc] at heq
    cases heq

theorem resolve_ok (hstr : ∀ s, str (.str s) = s) (hm : Filed m) {url url' : Option String} {ids : List String} :
    resolveRunWebhooks.resolve str tenantId asked m url = .ok (url', ids) ↔
      url' = url ∧ (∀ id ∈ asked.webhookEndpointIds, ∃ endpoint, Active m tenantId id endpoint) ∧
      (url = none → ids = sorted asked.webhookEndpointIds) ∧
      ∀ u ∈ url, ∃ id, ids = [id] ∧
        resolveCallback str asked asked.webhookEndpointIds.dedup ((ownEntries tenantId m).map Prod.snd) u = .ok id := by
  have hactive : (∀ id ∈ asked.webhookEndpointIds, ∃ endpoint, Active m tenantId id endpoint) ↔
      sorted (asked.webhookEndpointIds.dedup.filter fun id =>
        !(((ownEntries tenantId m).get id).map isActive).getD false) = [] := by
    rw [sorted_eq_nil, List.filter_eq_nil_iff]
    simp only [List.mem_dedup]
    refine forall₂_congr fun id _ => ?_
    constructor
    · rintro ⟨endpoint, hthere, howned, hact⟩
      simp [(get_ownEntries hm).mpr ⟨hthere, howned⟩, hact]
    · intro h
      cases hget : (ownEntries tenantId m).get id with
      | none => simp [hget] at h
      | some endpoint =>
        obtain ⟨hthere, howned⟩ := (get_ownEntries hm).mp hget
        exact ⟨endpoint, hthere, howned, by simpa [hget] using h⟩
  have hknown : (∀ id ∈ asked.webhookEndpointIds, ∃ endpoint, Active m tenantId id endpoint) →
      sorted (asked.webhookEndpointIds.dedup.filter fun id => !(ownEntries tenantId m).has id) = [] := fun h => by
    rw [sorted_eq_nil, List.filter_eq_nil_iff]
    intro id hid
    obtain ⟨endpoint, hthere, howned, -⟩ := h id (List.mem_dedup.mp hid)
    simp [Dict.has, (get_ownEntries hm).mpr ⟨hthere, howned⟩]
  have hsorted : sorted asked.webhookEndpointIds.dedup = sorted asked.webhookEndpointIds := by
    rw [sorted, List.dedup_idem, sorted]
  unfold resolveRunWebhooks.resolve
  dsimp only
  rw [endpoints_eq, byId_eq hstr (nodup_ownEntries hm) fun p hp => hm.named _ _ ((mem_ownEntries hm).mp hp).1]
  dsimp only
  by_cases hall : ∀ id ∈ asked.webhookEndpointIds, ∃ endpoint, Active m tenantId id endpoint
  · rw [if_neg (not_not.mpr (hknown hall)), if_neg (not_not.mpr (hactive.mp hall))]
    cases url with
    | none =>
      simp only [Except.ok.injEq, Prod.mk.injEq, hsorted, reduceCtorEq, Option.mem_def, false_implies, implies_true,
        true_implies, and_true]
      constructor
      · rintro ⟨hurl, hids⟩
        exact ⟨hurl.symm, hall, hids.symm⟩
      · rintro ⟨hurl, -, hids⟩
        exact ⟨hurl.symm, hids.symm⟩
    | some u =>
      dsimp only
      cases hcallback : resolveCallback str asked asked.webhookEndpointIds.dedup
          ((ownEntries tenantId m).map Prod.snd) u with
      | error refusal => simp [Except.map, hcallback]
      | ok id =>
        simp only [Except.map, Except.ok.injEq, Prod.mk.injEq, reduceCtorEq, false_implies, Option.mem_def,
          Option.some.injEq, true_and]
        constructor
        · rintro ⟨hurl, hids⟩
          refine ⟨hurl.symm, hall, fun v hv => ⟨id, hids.symm, ?_⟩⟩
          rw [← hv, hcallback]
        · rintro ⟨hurl, -, hids⟩
          obtain ⟨id', hids, heq⟩ := hids u rfl
          rw [hcallback] at heq
          cases heq
          exact ⟨hurl.symm, hids.symm⟩
  · refine iff_of_false ?_ fun h => hall h.2.1
    have hinactive : sorted (asked.webhookEndpointIds.dedup.filter fun id =>
        !(((ownEntries tenantId m).get id).map isActive).getD false) ≠ [] := mt hactive.mpr hall
    by_cases hmissing : sorted (asked.webhookEndpointIds.dedup.filter fun id => !(ownEntries tenantId m).has id) ≠ []
    · rw [if_pos hmissing]
      simp
    · rw [if_neg hmissing, if_pos hinactive]
      simp

theorem dedup_eq_iff {ids : List String} {id : String} :
    (ids.dedup = [] ∨ ids.dedup = [id]) ↔ ∀ id' ∈ ids, id' = id := by
  constructor
  · rintro (h | h) id' hid
    · rw [← List.mem_dedup, h] at hid
      cases hid
    · rw [← List.mem_dedup, h] at hid
      exact List.mem_singleton.mp hid
  · intro h
    have hall : ∀ id' ∈ ids.dedup, id' = id := fun id' hid => h id' (List.mem_dedup.mp hid)
    have hnodup := List.nodup_dedup ids
    cases hd : ids.dedup with
    | nil => exact .inl rfl
    | cons first rest =>
      rw [hd] at hall hnodup
      have hrest : rest = [] := List.eq_nil_iff_forall_not_mem.mpr fun id' hid => by
        refine (List.nodup_cons.mp hnodup).1 ?_
        rwa [hall first List.mem_cons_self, ← hall id' (List.mem_cons_of_mem first hid)]
      rw [hrest, hall first List.mem_cons_self]
      exact .inr rfl

/-- The choice of webhooks is accepted exactly where it is one. -/
theorem resolve_iff (hstr : ∀ s, str (.str s) = s) (hm : Filed m) {url : Option String} {ids : List String} :
    resolveRunWebhooks str tenantId asked m = .ok (url, ids) ↔ Chosen str tenantId asked m url ids := by
  have hcallback : ∀ u, (∃ id, ids = [id] ∧
      resolveCallback str asked asked.webhookEndpointIds.dedup ((ownEntries tenantId m).map Prod.snd) u = .ok id) ↔
      ∃ id endpoint, ids = [id] ∧ (∀ id' ∈ asked.webhookEndpointIds, id' = id) ∧
        Calls str m tenantId u id endpoint ∧ (∀ id' endpoint', Calls str m tenantId u id' endpoint' → id' = id) ∧
        (asked.callbackUri.isSome → TakesCallbacks endpoint) := fun u => by
    refine exists_congr fun id => ?_
    rw [resolveCallback_ok hstr hm, dedup_eq_iff]
    constructor
    · rintro ⟨hids, endpoint, hcalls, honly, htakes, hasked⟩
      exact ⟨endpoint, hids, hasked, hcalls, honly, htakes⟩
    · rintro ⟨endpoint, hids, hasked, hcalls, honly, htakes⟩
      exact ⟨hids, endpoint, hcalls, honly, htakes, hasked⟩
  have hnamed : ids = sorted asked.webhookEndpointIds ↔
      ids.Pairwise (· < ·) ∧ ∀ id, id ∈ ids ↔ id ∈ asked.webhookEndpointIds := by
    constructor
    · rintro rfl
      exact ⟨pairwise_sorted _, fun id => mem_sorted⟩
    · rintro ⟨hsorted, hmem⟩
      have hkey : ∀ {l : List String}, l.Pairwise (· < ·) → l.Pairwise fun a b => id a < id b := fun h => h
      exact Paging.eq_of_sorted (hkey hsorted) (hkey (pairwise_sorted _)) fun id => (hmem id).trans mem_sorted.symm
  have hresolved :
      resolveRunWebhooks.resolve str tenantId asked m (asked.callbackUri.or asked.callbackUrl) = .ok (url, ids) ∧
      (∀ uri ∈ asked.callbackUri, ∀ url' ∈ asked.callbackUrl, uri = url') ↔ Chosen str tenantId asked m url ids := by
    rw [resolve_ok hstr hm]
    constructor
    · rintro ⟨⟨rfl, hactive, hids, hurl⟩, hagree⟩
      exact ⟨hagree, rfl, hactive, fun h => hnamed.mp (hids h), fun u hu => (hcallback u).mp (hurl u hu)⟩
    · rintro ⟨hagree, rfl, hactive, hids, hurl⟩
      exact ⟨⟨rfl, hactive, fun h => hnamed.mpr (hids h), fun u hu => (hcallback u).mpr (hurl u hu)⟩, hagree⟩
  rw [← hresolved, resolveRunWebhooks]
  cases huri : asked.callbackUri with
  | none => simp
  | some uri =>
    cases hurl : asked.callbackUrl with
    | none => simp
    | some url' =>
      dsimp only
      by_cases heq : uri = url'
      · rw [if_neg (not_not.mpr heq)]
        simp [heq]
      · rw [if_pos heq]
        simp [heq]

/-- A callback is refused with a problem, or for event types that cannot be asked. -/
theorem callbackId_error {requested : List String} {endpoint : Fields} {id : String} {refusal : Refusal}
    (hnamed : endpoint.get "webhook_endpoint_id" = some (.str id))
    (h : callbackId str asked requested endpoint = .error refusal) :
    (∃ p, refusal = .problem p ∧ (p.status = 409 ∨ p.status = 422)) ∨
      ∃ fault, refusal = .fault fault ∧ pySet ((endpoint.get "event_types").getD .null) = .error fault := by
  rw [callbackId, hnamed] at h
  have hids : ∀ {refusal : Refusal}, (if requested ≠ [] ∧ requested ≠ [str (.str id)] then
      .error (.problem endpointIdsMismatch) else .ok (str (.str id)) : Except Refusal String) = .error refusal →
      refusal = .problem endpointIdsMismatch := fun h => by
    split at h
    · cases h
      rfl
    · cases h
  cases huri : asked.callbackUri.isSome with
  | false =>
    rw [huri, if_neg (by simp)] at h
    exact .inl ⟨_, hids h, .inr rfl⟩
  | true =>
    rw [huri, if_pos rfl] at h
    cases hcheck : checkCallbackTypes endpoint with
    | ok _ =>
      rw [hcheck] at h
      exact .inl ⟨_, hids h, .inr rfl⟩
    | error refusal' =>
      rw [hcheck] at h
      cases h
      unfold checkCallbackTypes at hcheck
      split at hcheck
      · rename_i fault hfault
        cases hcheck
        exact .inr ⟨fault, rfl, hfault⟩
      · dsimp only at hcheck
        split at hcheck
        · cases hcheck
          exact .inl ⟨_, rfl, .inr rfl⟩
        · cases hcheck

theorem resolveCallback_error (hm : Filed m) {requested : List String} {url : String} {refusal : Refusal}
    (h : resolveCallback str asked requested ((ownEntries tenantId m).map Prod.snd) url = .error refusal) :
    (∃ p, refusal = .problem p ∧ (p.status = 409 ∨ p.status = 422)) ∨
      ∃ fault id endpoint, refusal = .fault fault ∧ Calls str m tenantId url id endpoint ∧
        pySet ((endpoint.get "event_types").getD .null) = .error fault := by
  rw [resolveCallback, filter_endpoints] at h
  rcases hc : candidates str tenantId m url with _ | ⟨p, _ | ⟨q, rest⟩⟩
  · rw [hc] at h
    cases h
    exact .inl ⟨_, rfl, .inr rfl⟩
  · have hcalls := ((candidates_eq hm).mp hc).1
    rw [hc] at h
    rcases callbackId_error (hm.named p.1 p.2 hcalls.there) h with hproblem | ⟨fault, hfault, htypes⟩
    · exact .inl hproblem
    · exact .inr ⟨fault, p.1, p.2, hfault, hcalls, htypes⟩
  · rw [hc] at h
    cases h
    exact .inl ⟨_, rfl, .inl rfl⟩

theorem resolve_error (hstr : ∀ s, str (.str s) = s) (hm : Filed m) {refusal : Refusal}
    (h : resolveRunWebhooks str tenantId asked m = .error refusal) :
    (∃ p, refusal = .problem p ∧ (p.status = 409 ∨ p.status = 422)) ∨
      ∃ fault url id endpoint, refusal = .fault fault ∧ Calls str m tenantId url id endpoint ∧
        pySet ((endpoint.get "event_types").getD .null) = .error fault := by
  have hresolve : ∀ {url}, resolveRunWebhooks.resolve str tenantId asked m url = .error refusal →
      (∃ p, refusal = .problem p ∧ (p.status = 409 ∨ p.status = 422)) ∨
        ∃ fault url id endpoint, refusal = .fault fault ∧ Calls str m tenantId url id endpoint ∧
          pySet ((endpoint.get "event_types").getD .null) = .error fault := fun {url} h => by
    unfold resolveRunWebhooks.resolve at h
    dsimp only at h
    rw [endpoints_eq, byId_eq hstr (nodup_ownEntries hm) fun p hp => hm.named _ _ ((mem_ownEntries hm).mp hp).1] at h
    dsimp only at h
    by_cases hmissing : sorted (asked.webhookEndpointIds.dedup.filter fun id => !(ownEntries tenantId m).has id) ≠ []
    · rw [if_pos hmissing] at h
      cases h
      exact .inl ⟨_, rfl, .inr rfl⟩
    rw [if_neg hmissing] at h
    by_cases hinactive : sorted (asked.webhookEndpointIds.dedup.filter fun id =>
        !(((ownEntries tenantId m).get id).map isActive).getD false) ≠ []
    · rw [if_pos hinactive] at h
      cases h
      exact .inl ⟨_, rfl, .inl rfl⟩
    rw [if_neg hinactive] at h
    cases url with
    | none => cases h
    | some u =>
      dsimp only at h
      cases hcallback : resolveCallback str asked asked.webhookEndpointIds.dedup
          ((ownEntries tenantId m).map Prod.snd) u with
      | ok id =>
        rw [hcallback] at h
        cases h
      | error refusal' =>
        rw [hcallback] at h
        cases h
        rcases resolveCallback_error hm hcallback with hproblem | ⟨fault, id, endpoint, hfault, hcalls, htypes⟩
        · exact .inl hproblem
        · exact .inr ⟨fault, u, id, endpoint, hfault, hcalls, htypes⟩
  unfold resolveRunWebhooks at h
  split at h
  · split at h
    · cases h
      exact .inl ⟨_, rfl, .inr rfl⟩
    · exact hresolve h
  · exact hresolve h
  · exact hresolve h

end

/-! ### Over histories -/

theorem filed_of_stocked {m : Memory} (h : Stocked .webhookEndpoints m) : Filed m := ⟨h.named, h.nodup⟩

/-- In every state that careful calls lead to, the webhooks of a request are accepted exactly where what is returned is
a choice; and what is not accepted is refused with 409 or 422, but for event types that cannot be iterated over. -/
theorem webhooks_chosen {o : SetOrder} {es : List Event} {s : SqliteStore}
    (h : Runs.Run (fun s e => some (SqliteStore.step o s e)) Careful .init es s) {str : Value → String}
    (hstr : ∀ s, str (.str s) = s) (tenantId : String) (asked : Asked) :
    (∀ url ids, resolveRunWebhooks str tenantId asked s.memory = .ok (url, ids) ↔
      Chosen str tenantId asked s.memory url ids) ∧
    ∀ refusal, resolveRunWebhooks str tenantId asked s.memory = .error refusal →
      (∃ p, refusal = .problem p ∧ (p.status = 409 ∨ p.status = 422)) ∨
        ∃ fault url id endpoint, refusal = .fault fault ∧ Calls str s.memory tenantId url id endpoint ∧
          pySet ((endpoint.get "event_types").getD .null) = .error fault := by
  have hfiled := filed_of_stocked ((stocked_run h).2 .webhookEndpoints (by simp)).memory
  exact ⟨fun url ids => resolve_iff hstr hfiled, fun refusal => resolve_error hstr hfiled⟩

/-- The endpoint of a callback takes the events that a callback is for, as long as it is not disabled and is subscribed
to what it was. -/
theorem takes_of_chosen {m : Memory} {tenantId id : String} {endpoint endpoint' run event : Fields}
    (howned : owns tenantId endpoint) (htakes : TakesCallbacks endpoint)
    (hthere : m.webhookEndpoints.get id = some endpoint') (htenant : endpoint'.get "tenant_id" = endpoint.get "tenant_id")
    (htypes : endpoint'.get "event_types" = endpoint.get "event_types")
    (hstatus : endpoint'.get "status" ≠ some (.str "DISABLED")) (hrun : run.get "tenant_id" = some (.str tenantId))
    {type : String} (htype : type ∈ requiredTypes) (hevent : event.get "type" = some (.str type)) :
    Takes m run event id := by
  obtain ⟨types, hset, hall⟩ := htakes
  have hsame : ((endpoint'.get "tenant_id").getD .null).equal ((run.get "tenant_id").getD .null) = true := by
    rw [htenant, hrun]
    exact howned
  have hdisabled : ((endpoint'.get "status").getD .null).equal (.str "DISABLED") = false := by
    rw [← Bool.not_eq_true, Value.equal_str]
    intro h
    cases hget : endpoint'.get "status" with
    | none => simp [hget] at h
    | some v =>
      rw [hget] at h
      exact hstatus (hget.trans (congrArg some h))
  rw [Takes, subscribed, hthere]
  dsimp only
  rw [if_neg (by simp [hsame, hdisabled]), htypes, hset, hevent]
  dsimp only [Option.getD_some]
  by_cases hany : types.any (Value.equal (.str "*")) = true
  · rw [if_pos hany]
  · have htaken : types.any (Value.within (.str type)) = true := by
      rw [show Value.within (.str type) = Value.equal (.str type) from funext (Value.str_within type)]
      exact (hall.resolve_left hany) type htype
    rw [if_neg hany, if_pos (by rfl), htaken]

/-- A run that names one endpoint is announced to this one. -/
theorem selected_singleton (o : SetOrder) {m : Memory} {runId id : String}
    (h : (runOf m runId).get "webhook_endpoint_ids" = some (.list [.str id])) : selected o m runId = [id] := by
  have hset : pySet (.list [.str id]) = .ok [.str id] := rfl
  unfold runOf at h
  simp only [selected, selectedEndpointIds, h, Option.getD_some, hset]
  exact List.perm_singleton.mp (o.perm [id])

namespace Registered

def url : String := "https://hooks.example/run"

/-- An endpoint for every event. -/
def endpoint : Event :=
  .call true (.createWebhookEndpoint (.dict [("tenant_id", .str "t"), ("url", .str url), ("status", .str "ACTIVE"),
    ("event_types", .list [.str "*"])]))

def state : SqliteStore := SqliteStore.init.step inOrder endpoint

def asked : Asked := ⟨some url, none, []⟩

theorem careful (s : SqliteStore) : Careful s endpoint := .inr fun h => absurd rfl h

theorem reached : Runs.Run (fun s e => some (SqliteStore.step inOrder s e)) Careful .init [endpoint] state :=
  .cons (careful _) rfl (.nil _)

theorem resolved : resolveRunWebhooks (pyStr inOrder) "t" asked state.memory = .ok (some url, [formatId "wh" 1]) := rfl

end Registered

/-- The endpoint at the URL of the callback is chosen. -/
theorem callback_chosen :
    Chosen (pyStr inOrder) "t" Registered.asked Registered.state.memory (some Registered.url) [formatId "wh" 1] :=
  ((webhooks_chosen Registered.reached (fun _ => rfl) "t" Registered.asked).1 _ _).mp Registered.resolved

/-- A step of a history whose calls are careful and leave the deliveries to the outbox. -/
def Regular (s : SqliteStore) (e : Event) : Prop := Careful s e ∧ Sparing s e

/-- The run names the endpoint and no other, and the endpoint is still subscribed to what it was and not disabled. -/
structure Bound (tenantId runId id : String) (endpoint : Fields) (m : Memory) : Prop where
  names : (runOf m runId).get "webhook_endpoint_ids" = some (.list [.str id])
  owner : (runOf m runId).get "tenant_id" = some (.str tenantId)
  stands : ∃ endpoint', m.webhookEndpoints.get id = some endpoint' ∧
    endpoint'.get "tenant_id" = endpoint.get "tenant_id" ∧ endpoint'.get "event_types" = endpoint.get "event_types" ∧
    endpoint'.get "status" ≠ some (.str "DISABLED")

/-- A callback that was accepted for a run is what the run's stage completions, its failure and its cancellation are
announced to, each exactly once, and they are announced to no other endpoint. -/
theorem callback_announced {o : SetOrder} {es : List Event} {s : SqliteStore}
    (h : Runs.Run (fun s e => some (SqliteStore.step o s e)) Regular .init es s) {str : Value → String}
    (hstr : ∀ s, str (.str s) = s) {tenantId uri : String} {asked : Asked} (huri : asked.callbackUri = some uri)
    {url : Option String} {ids : List String}
    (hchosen : resolveRunWebhooks str tenantId asked s.memory = .ok (url, ids)) :
    ∃ id endpoint, ids = [id] ∧ Calls str s.memory tenantId uri id endpoint ∧
      ∀ es' t, Runs.Run (fun s e => some (SqliteStore.step o s e)) Sparing s es' t → ∀ disk op u, op ≠ .reset →
        Sparing t (.call disk op) → op.apply o disk t = (.ok (), u) → ∀ r event, (r, event) ∈ appended op t u →
        Bound tenantId r id endpoint u.memory → (∃ type ∈ requiredTypes, event.get "type" = some (.str type)) →
        (noticed u.memory id).count (eventId event) = 1 ∧
          ∀ d, d ≠ id → eventId event ∈ noticed u.memory d → eventId event ∈ noticed t.memory d := by
  have hfiled := filed_of_stocked ((stocked_run (h.mono fun _ _ he => he.1)).2 .webhookEndpoints (by simp)).memory
  have hrun := h.mono fun s e (he : Regular s e) => he.2
  obtain ⟨-, hurl, -, -, hcallback⟩ := (resolve_iff hstr hfiled).mp hchosen
  rw [huri, Option.some_or] at hurl
  obtain ⟨id, endpoint, hids, -, hcalls, -, htakes⟩ := hcallback uri hurl
  refine ⟨id, endpoint, hids, hcalls, fun es' t ht disk op u hreset hop happly r event hmem hbound htype => ?_⟩
  have hsettled := settled_run (hrun.append ht)
  have hcall := hsettled.call hreset hop.2 happly
  have hselected := selected_singleton o hbound.names
  have hlater : (t.step o (.call disk op)).memory = u.memory := by
    show (op.apply o disk t).2.memory = u.memory
    rw [happly]
  have hnodup : (noticed u.memory id).Nodup := hlater ▸ (settled_step o hsettled hop).2.memory.2.distinct id
  -- one call records for one run
  have hsame : ∀ r' event', (r', event') ∈ appended op t u → r' = r := fun r' event' hmem' => by
    unfold appended at hmem hmem'
    cases hrecords : op.records with
    | none =>
      rw [hrecords] at hmem
      cases hmem
    | some runId =>
      rw [hrecords] at hmem hmem'
      obtain ⟨_, -, hpair⟩ := List.mem_map.mp hmem
      obtain ⟨_, -, hpair'⟩ := List.mem_map.mp hmem'
      exact (congrArg Prod.fst hpair').symm.trans (congrArg Prod.fst hpair)
  refine ⟨List.count_eq_one_of_mem hnodup ?_, fun d hd hd' => ?_⟩
  · obtain ⟨endpoint', hthere, htenant, htypes, hstatus⟩ := hbound.stands
    obtain ⟨type, hin, hevent⟩ := htype
    have htaken := takes_of_chosen hcalls.owned (htakes (by rw [huri]; rfl)) hthere htenant htypes hstatus
      hbound.owner hin hevent
    exact (hcall id (eventId event)).mpr (.inr ⟨r, event, hmem, rfl, by rw [hselected]; simp, htaken⟩)
  · rcases (hcall d (eventId event)).mp hd' with hold | ⟨r', event', hmem', -, hin, -⟩
    · exact hold
    · rw [hsame r' event' hmem', hselected] at hin
      exact absurd (List.mem_singleton.mp hin) hd

namespace Registered

def started : Event :=
  .call true (.createRun (.dict [("run_id", .str "r"), ("tenant_id", .str "t"),
    ("webhook_endpoint_ids", .list [.str (formatId "wh" 1)])]))

def running : SqliteStore := state.step inOrder started

def failed : Op := .appendEvent "r" (.dict [("type", .str "run.failed.v1")])

def after : SqliteStore := (failed.apply inOrder true running).2

theorem regular : Runs.Run (fun s e => some (SqliteStore.step inOrder s e)) Regular .init [endpoint] state :=
  .cons ⟨careful _, trivial, trivial⟩ rfl (.nil _)

theorem sparing : Runs.Run (fun s e => some (SqliteStore.step inOrder s e)) Sparing state [started] running :=
  .cons ⟨rfl, trivial⟩ rfl (.nil _)

theorem anonymous : Sparing running (.call true failed) := by
  refine ⟨fun id h => ?_, trivial⟩
  cases h

theorem applied : failed.apply inOrder true running = (.ok (), after) := Prod.ext rfl rfl

def logged : Fields := ((logOf after.memory "r").head?).getD []

theorem appended_logged : ("r", logged) ∈ appended failed running after := List.mem_singleton.mpr rfl

end Registered

/-- The failure of a run is announced once to its callback. -/
theorem failure_called : (noticed Registered.after.memory (formatId "wh" 1)).count (eventId Registered.logged) = 1 := by
  obtain ⟨id, endpoint, hids, hcalls, hall⟩ :=
    callback_announced Registered.regular (fun _ => rfl) rfl Registered.resolved
  obtain rfl : formatId "wh" 1 = id := (List.cons.inj hids).1
  have hstatus : endpoint.get "status" ≠ some (.str "DISABLED") := fun h => by
    have hactive := hcalls.active
    rw [isActive, h] at hactive
    cases hactive
  refine (hall _ _ Registered.sparing true _ _ (by simp [Registered.failed]) Registered.anonymous
    Registered.applied _ _ Registered.appended_logged ⟨rfl, rfl, endpoint, hcalls.there, rfl, rfl, hstatus⟩ ?_).1
  exact ⟨"run.failed.v1", by decide, rfl⟩

end AutomlApi.Choosing
