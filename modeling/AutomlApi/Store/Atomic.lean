import AutomlApi.Store.Recording

/-! When a method that raises has changed nothing. Most check everything before they
write. The others write first: a run before the event that goes with it, a result
before the run, an event before its deliveries, an empty dictionary before what
goes into it. -/

namespace AutomlApi.Store

open Act

/-! ### The operations that write before their last check -/

/-- The event of a mutation, with the revision of its run. -/
def revised (run : Fields) (value : Value) : Except Fault Value :=
  (mapping "event" value).map fun event => .dict (event.set "run_revision" ((run.get "run_revision").getD .null))

/-- The event of a mutation is refused. -/
def refused (runId : String) (run : Fields) (value : Value) (m : Memory) : Bool :=
  match revised run value with
  | .error _ => true
  | .ok event => !(prepareEvent runId event m).isOk

/-- The event of a mutation can be recorded. -/
def revisable (o : SetOrder) (runId : String) (run : Fields) (value : Value) (m : Memory) : Bool :=
  match revised run value with
  | .error _ => false
  | .ok event => recordable o runId event m

/-- The events of a final mutation can be recorded one after the other. -/
def revisableAll (o : SetOrder) (runId : String) (run : Fields) : List Value → Memory → Bool
  | [], _ => true
  | value :: rest, m =>
    revisable o runId run value m && revisableAll o runId run rest (recordRevised o runId run value m).2

/-- The id of an item is left to the store or can serve as one. -/
def identifiable (idField : String) (item : Fields) : Bool :=
  match item.get idField with
  | none | some .null => true
  | some id => id.nonEmptyString?.isSome

/-- A delivery that an endpoint without any can be given. -/
def openable (endpointId : String) (value : Value) : Bool :=
  match mapping "webhook_delivery" value with
  | .error _ => false
  | .ok item =>
    match fixFields "webhook_delivery" [("webhook_endpoint_id", .str endpointId)] item with
    | .error _ => false
    | .ok item => identifiable "delivery_id" item

/-- The updates of a delivery leave it with its endpoint. -/
def keepsEndpoint (endpointId : String) (updates : Value) : Bool :=
  match argument "webhook_endpoint_id" (.str endpointId) updates with
  | .error _ => false
  | .ok supplied => supplied.equal (.str endpointId)

/-- The condition, on the memory before the call, under which an operation that
raises leaves no trace. -/
def Op.Atomic (o : SetOrder) (m : Memory) : Op → Prop
  | appendEvent runId value => (prepareEvent runId value m).isOk → recordable o runId value m
  | mutateRunWithEvent runId updates event expected bump =>
    ∀ current revision changes, currentRevision runId expected m = .ok (current, revision) →
      mapping "run updates" updates = .ok changes →
      let run := patched current changes (if bump then some revision else none)
      revisable o runId run event (putRun runId run m) ∨
        refused runId run event (putRun runId run m) ∧ run = current
  | finalizeRunWithResult runId result updates events expected =>
    ∀ current revision stored m', currentRevision runId expected m = .ok (current, revision) →
      storedResult runId result m = (.ok stored, m') →
      match runChanges runId updates with
      | .error _ => m.results.get runId = some stored
      | .ok changes =>
        let run := patched current changes (some revision)
        revisableAll o runId run events (putRun runId run (putResult runId stored m'))
  | createWebhookDelivery endpointId value =>
    m.webhookEndpoints.has endpointId → m.webhookDeliveries.has endpointId ∨ openable endpointId value
  | updateWebhookDelivery endpointId _ updates =>
    m.webhookEndpoints.has endpointId → keepsEndpoint endpointId updates → m.webhookDeliveries.has endpointId
  | completeIdempotentRequest operation key fingerprint statusCode body headers =>
    ∀ identity, idempotencyIdentity operation key fingerprint = .ok identity →
      m.idempotency.has identity ∨ (storedResponse statusCode body headers).isOk
  | _ => True

/-- From `s`, the program keeps the invariant, and if it raises the memory is as
before exactly if `P`, which is so wherever it returns. -/
structure AtomicIff {α : Type} (m : StoreM α) (s : Memory) (P : Prop) : Prop where
  same : ∀ e s', m s = (.error e, s') → (Same s s' ↔ P)
  done : Succeeds m s → P
  inv : (m s).2.Inv

theorem TidyAt.atomic {α : Type} {m : StoreM α} {s : Memory} (h : TidyAt m s) : AtomicIff m s True :=
  ⟨fun e s' he => iff_of_true (h.clean e s' he) trivial, fun _ => trivial, h.inv⟩

/-- What follows only makes the reply. -/
theorem atomic_reply {α β : Type} {m : StoreM α} {k : α → StoreM β} {s : Memory} {P : Prop}
    (hk : ∀ a t, ∃ b, k a t = (.ok b, t)) (h : AtomicIff m s P) : AtomicIff (m >>= k) s P where
  same e s' he := by
    rcases bind_eq_error he with he | ⟨a, t, -, he⟩
    · exact h.same e s' he
    · obtain ⟨b, hb⟩ := hk a t
      rw [hb] at he
      cases he
  done := by
    rintro ⟨b, t, ht⟩
    obtain ⟨a, t', hm, -⟩ := bind_eq_ok ht
    exact h.done ⟨a, t', hm⟩
  inv := by
    have hinv := h.inv
    rw [bind_eq]
    revert hinv
    cases m s with
    | mk r t =>
      cases r with
      | error e => exact id
      | ok a =>
        obtain ⟨b, hb⟩ := hk a t
        dsimp only
        rw [hb]
        exact id

/-! ### What has changed -/

theorem same_putRun {s : Memory} {runId : String} {current run : Fields} (h : s.runs.get runId = some current) :
    Same s (putRun runId run s) ↔ run = current := by
  constructor
  · rintro ⟨counters, hs⟩
    have := congrArg (fun m => m.runs.get runId) hs
    simpa [putRun, h] using this
  · rintro rfl
    exact ⟨s.idCounters, by rw [putRun, Dict.set_get h]⟩

theorem revision_patched (current changes : Fields) (revision : ℤ) :
    (patched current changes (some revision)).get "run_revision" = some (.int (revision + 1)) := by
  simp [patched]

/-- A new revision is not the current one. -/
theorem patched_ne {runId : String} {expected : Option ℤ} {s : Memory} {current : Fields} {revision : ℤ}
    (h : currentRevision runId expected s = .ok (current, revision)) (t : Memory)
    (ht : revisionOf runId t = some (.int (revision + 1))) : ¬ Same s t := by
  rintro ⟨counters, rfl⟩
  have hrun := has_of_currentRevision h
  simp only [revisionOf, hrun, Option.bind_some] at ht
  unfold currentRevision at h
  rw [hrun] at h
  dsimp only at h
  rw [ht] at h
  simp only [Option.getD_some, toInt] at h
  split at h
  · simp only [Except.ok.injEq, Prod.mk.injEq] at h
    omega
  · split at h
    · simp only [Except.ok.injEq, Prod.mk.injEq] at h
      omega
    · cases h

/-- Opening the deliveries of an endpoint shows, unless it has them. -/
theorem same_openDeliveries {s t : Memory} {endpointId : String} (h : Same (openDeliveries endpointId s) t) :
    Same s t ↔ s.webhookDeliveries.has endpointId := by
  obtain ⟨counters, rfl⟩ := h
  constructor
  · rintro ⟨counters', hs⟩
    by_contra hhas
    have hget : (s.webhookDeliveries.setDefault endpointId []).has endpointId := by
      rw [Dict.setDefault, if_neg hhas, Dict.has_set]
      simp
    have hdel : s.webhookDeliveries.setDefault endpointId [] = s.webhookDeliveries :=
      congrArg Memory.webhookDeliveries hs
    rw [hdel] at hget
    exact hhas hget
  · intro hhas
    exact ⟨counters, by simp only [openDeliveries, Dict.setDefault_of_has hhas]⟩

theorem quiet_openDeliveries (endpointId : String) (s : Memory) : Quiet s (openDeliveries endpointId s) :=
  ⟨fun _ h => h, fun _ h => h, rfl, rfl⟩

/-- A result that is written shows, unless it is there. -/
theorem same_putResult {s : Memory} {counters : Dict String ℕ} {runId : String} {stored : Fields} :
    Same s (putResult runId stored { s with idCounters := counters }) ↔ s.results.get runId = some stored := by
  constructor
  · rintro ⟨counters', hs⟩
    have hresults : s.results.set runId stored = s.results := congrArg Memory.results hs
    rw [← hresults, Dict.get_set_self]
  · intro h
    exact ⟨counters, by simp only [putResult, Dict.set_get h]⟩

/-- A record that is written shows, unless it is there. -/
theorem same_putRecord {s : Memory} {identity : String × String} {fallback : IdempotencyRecord} :
    Same s (putRecord identity ((s.idempotency.get identity).getD fallback) s) ↔ s.idempotency.has identity := by
  constructor
  · rintro ⟨counters, hs⟩
    have hidem : s.idempotency.set identity ((s.idempotency.get identity).getD fallback) = s.idempotency :=
      congrArg Memory.idempotency hs
    rw [← hidem, Dict.has_set]
    simp
  · intro hhas
    obtain ⟨record, hrecord⟩ := Option.isSome_iff_exists.mp hhas
    refine ⟨s.idCounters, ?_⟩
    rw [hrecord, Option.getD_some, putRecord, Dict.set_get hrecord]

theorem requireEndpoint_bind {α : Type} (endpointId : String) (k : Unit → StoreM α) (s : Memory) :
    (requireEndpoint endpointId >>= k) s =
      if s.webhookEndpoints.has endpointId then k () s
      else (.error (.notFound "webhook_endpoint" endpointId), s) := by
  by_cases h : s.webhookEndpoints.has endpointId
  · simp only [requireEndpoint, bind_eq, Act.get, h, if_true]
    rfl
  · simp only [requireEndpoint, bind_eq, Act.get, h]
    rfl

theorem requireRevision_eq (runId : String) (expected : Option ℤ) (s : Memory) :
    requireRevision runId expected s = (currentRevision runId expected s, s) := rfl

theorem recordRevised_eq (o : SetOrder) (runId : String) (run : Fields) (value : Value) (s : Memory) :
    recordRevised o runId run value s = (check (revised run value) >>= recordEvent o runId) s := by
  unfold recordRevised revised
  cases mapping "event" value <;> rfl

theorem recordAll_eq (o : SetOrder) (runId : String) (run : Fields) (value : Value) (rest : List Value) :
    recordAll o runId run (value :: rest) = recordRevised o runId run value >>= fun event =>
      recordAll o runId run rest >>= fun events => pure (event :: events) := rfl

theorem withId_identifiable {idField : String} (kind resource : String) {item : Fields}
    (h : identifiable idField item) (s : Memory) : ∃ item' counters id, withId idField kind item s = (.ok item', { s with idCounters := counters }) ∧
      requireId idField resource item' = .ok id := by
  have hnew : ∃ item' counters id,
      (newIdLocked kind >>= fun id => pure (item.set idField (.str id)) : StoreM Fields) s
        = (.ok item', { s with idCounters := counters }) ∧ requireId idField resource item' = .ok id := by
    refine ⟨_, _, formatId kind (counterOf s kind + 1), rfl, ?_⟩
    simp [requireId, Value.nonEmptyString?, formatId_ne, counterOf]
  unfold identifiable at h
  unfold withId
  cases hget : item.get idField with
  | none => exact hnew
  | some v =>
    rw [hget] at h
    cases v with
    | null => exact hnew
    | str id =>
      refine ⟨item, s.idCounters, id, rfl, ?_⟩
      by_cases hne : id = ""
      · simp [Value.nonEmptyString?, hne] at h
      · simp [requireId, hget, Value.nonEmptyString?, hne]
    | _ => cases h

/-- Into an empty dictionary goes every item that can have an id. -/
theorem succeeds_insertLocked {c : Collection} {item item' : Fields} {idField kind resource : String}
    {fixed : Fields} {s : Memory} (hfix : fixFields resource fixed item = .ok item')
    (hid : identifiable idField item') (hc : ∀ counters, c.get { s with idCounters := counters } = []) :
    Succeeds (insertLocked c item idField kind resource fixed) s := by
  obtain ⟨item₂, counters, id, hwith, hreq⟩ := withId_identifiable kind resource hid s
  rw [insertLocked, succeeds_check_bind]
  refine ⟨item', hfix, ?_⟩
  rw [succeeds_bind_of_eq hwith, succeeds_check_bind]
  refine ⟨id, hreq, ?_⟩
  have hfree : (c.get { s with idCounters := counters }).has id = false := by rw [hc]; rfl
  rw [succeeds_congr (get_bind _ _), hfree]
  exact ⟨item₂, _, rfl⟩

/-- What has been inserted could have an id. -/
theorem identifiable_of_insertLocked {c : Collection} {item item' : Fields} {idField kind resource : String}
    {fixed : Fields} {s : Memory} (hfix : fixFields resource fixed item = .ok item')
    (h : Succeeds (insertLocked c item idField kind resource fixed) s) : identifiable idField item' := by
  rw [insertLocked, succeeds_check_bind] at h
  obtain ⟨item₁, hitem, _, _, h⟩ := h
  cases hfix.symm.trans hitem
  obtain ⟨item₂, t, hwith, h⟩ := bind_eq_ok h
  obtain ⟨id, hid, -⟩ := check_bind_ok h
  unfold identifiable
  unfold withId at hwith
  cases hget : item'.get idField with
  | none => rfl
  | some v =>
    rw [hget] at hwith
    cases v with
    | null => rfl
    | _ =>
      cases hwith
      unfold requireId at hid
      rw [hget, Option.bind_some] at hid
      dsimp only
      cases hv : Value.nonEmptyString? _ with
      | none => rw [hv] at hid; cases hid
      | some _ => rfl

theorem openable_of_createDelivery {endpointId : String} {value : Value} {s : Memory}
    (h : Succeeds (createLocked (.webhookDeliveries endpointId) value "delivery_id" "whd" "webhook_delivery"
      [("webhook_endpoint_id", .str endpointId)]) s) : openable endpointId value := by
  unfold openable
  rw [createLocked, succeeds_check_bind] at h
  obtain ⟨item, hmap, h⟩ := h
  simp only [hmap]
  cases hfix : fixFields "webhook_delivery" [("webhook_endpoint_id", .str endpointId)] item with
  | error fault => rw [insertLocked, hfix] at h; exact absurd h (not_succeeds_bind rfl)
  | ok item' => exact identifiable_of_insertLocked hfix h

/-- The dictionary that is opened for an endpoint without deliveries is empty. -/
theorem open_empty {endpointId : String} {s : Memory} (h : ¬ s.webhookDeliveries.has endpointId) :
    (Collection.webhookDeliveries endpointId).get (openDeliveries endpointId s) = [] := by
  have hopen := deliveriesOf_open s endpointId endpointId
  rw [Dict.has, Option.not_isSome_iff_eq_none] at h
  rw [deliveriesOf, deliveriesOf, h] at hopen
  exact hopen

theorem succeeds_createDelivery {endpointId : String} {value : Value} {s : Memory}
    (hhas : ¬ s.webhookDeliveries.has endpointId) (h : openable endpointId value) :
    Succeeds (createLocked (.webhookDeliveries endpointId) value "delivery_id" "whd" "webhook_delivery"
      [("webhook_endpoint_id", .str endpointId)]) (openDeliveries endpointId s) := by
  unfold openable at h
  rw [createLocked, succeeds_check_bind]
  cases hmap : mapping "webhook_delivery" value with
  | error fault => simp [hmap] at h
  | ok item =>
    simp only [hmap] at h
    refine ⟨item, rfl, ?_⟩
    cases hfix : fixFields "webhook_delivery" [("webhook_endpoint_id", .str endpointId)] item with
    | error fault => simp [hfix] at h
    | ok item' =>
      simp only [hfix] at h
      exact succeeds_insertLocked hfix h fun _ => open_empty hhas

end AutomlApi.Store
