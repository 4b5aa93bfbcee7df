import AutomlApi.Store.Atomic

/-! The operations that write before their last check, one by one: each keeps the
invariant, and leaves the memory alone when it raises exactly under its condition
in `Op.Atomic`. -/

namespace AutomlApi.Store

open Act

theorem atomicIff_congr {α : Type} {m m' : StoreM α} {s : Memory} {P : Prop} (h : m s = m' s)
    (h' : AtomicIff m' s P) : AtomicIff m s P :=
  ⟨fun e s' he => h'.same e s' (by rw [← h, he]), fun hs => h'.done ((succeeds_congr h).mp hs),
    by rw [h]; exact h'.inv⟩

theorem atomicIff_raise {α : Type} {m : StoreM α} {s : Memory} {P : Prop} {e : Fault}
    (h : m s = (.error e, s)) (hs : s.Inv) (hP : P) : AtomicIff m s P :=
  ⟨fun _ s' he => by rw [h] at he; cases he; exact iff_of_true (.refl s) hP, fun _ => hP, by rw [h]; exact hs⟩

section Operations

variable {s : Memory} (hs : s.Inv)
include hs

theorem atomic_recordEvent (o : SetOrder) (runId : String) (value : Value) :
    AtomicIff (recordEvent o runId value) s ((prepareEvent runId value s).isOk → recordable o runId value s) where
  same e s' h := by
    have hnot : ¬ recordable o runId value s = true := by
      rw [← succeeds_recordEvent o runId value hs]
      rintro ⟨_, _, h'⟩
      rw [h] at h'
      cases h'
    rcases recordEvent_error hs h with ⟨herr, rfl⟩ | ⟨hok, hne⟩
    · refine iff_of_true (.refl s') fun hok => ?_
      rw [herr] at hok
      cases hok
    · refine iff_of_false ?_ fun hrec => hnot (hrec hok)
      rintro ⟨_, rfl⟩
      exact hne rfl
  done h _ := (succeeds_recordEvent o runId value hs).mp h
  inv := inv_recordEvent o runId value hs

theorem inv_recordRevised (o : SetOrder) (runId : String) (run : Fields) (value : Value) :
    (recordRevised o runId run value s).2.Inv := by
  rw [recordRevised_eq, check_bind]
  cases revised run value with
  | error fault => exact hs
  | ok event => exact inv_recordEvent o runId event hs

theorem succeeds_recordRevised (o : SetOrder) (runId : String) (run : Fields) (value : Value) :
    Succeeds (recordRevised o runId run value) s ↔ revisable o runId run value s := by
  rw [succeeds_congr (recordRevised_eq o runId run value s), succeeds_check_bind, revisable]
  cases revised run value with
  | error fault => simp
  | ok event => simp [succeeds_recordEvent o runId event hs]

theorem revisionOf_recordRevised (o : SetOrder) (runId : String) (run : Fields) (value : Value) :
    revisionOf runId (recordRevised o runId run value s).2 = revisionOf runId s := by
  rw [recordRevised_eq, check_bind]
  cases revised run value with
  | error fault => rfl
  | ok event => exact revisionOf_recordEvent o runId event hs

/-- The event of a mutation is refused, and nothing is written, or it is in the log. -/
theorem recordRevised_error {o : SetOrder} {runId : String} {run : Fields} {value : Value} {fault : Fault}
    {s' : Memory} (h : recordRevised o runId run value s = (.error fault, s')) :
    (refused runId run value s = true ∧ s' = s) ∨ (refused runId run value s = false ∧ s'.events ≠ s.events) := by
  rw [recordRevised_eq, check_bind] at h
  unfold refused
  cases hrev : revised run value with
  | error e => rw [hrev] at h; cases h; exact .inl ⟨rfl, rfl⟩
  | ok event =>
    rw [hrev] at h
    rcases recordEvent_error hs h with ⟨herr, rfl⟩ | ⟨hok, hne⟩
    · exact .inl ⟨by simp [herr, Except.isOk, Except.toBool], rfl⟩
    · exact .inr ⟨by simp [hok], hne⟩

theorem atomic_mutateRunWithEvent (o : SetOrder) (runId : String) (updates event : Value)
    (expected : Option ℤ) (bump : Bool) : AtomicIff (mutateRunWithEvent o runId updates event expected bump) s
      (Op.Atomic o s (.mutateRunWithEvent runId updates event expected bump)) := by
  cases hcur : currentRevision runId expected s with
  | error fault =>
    refine atomicIff_raise (e := fault) ?_ hs fun current revision changes h => ?_
    · rw [mutateRunWithEvent, bind_eq, requireRevision_eq, hcur]
    · rw [hcur] at h; cases h
  | ok p =>
  obtain ⟨current, revision⟩ := p
  have hrun := has_of_currentRevision hcur
  cases hmap : mapping "run updates" updates with
  | error fault =>
    refine atomicIff_raise (e := fault) ?_ hs fun _ _ changes _ h => ?_
    · rw [mutateRunWithEvent, bind_eq, requireRevision_eq, hcur]
      simp only [check_bind, hmap]
    · rw [hmap] at h; cases h
  | ok changes =>
  set run := patched current changes (if bump then some revision else none)
  have heq : mutateRunWithEvent o runId updates event expected bump s =
      ((modify (putRun runId run) >>= fun _ => recordRevised o runId run event) >>= fun stored =>
        get >>= fun memory => pure ((memory.runs.get runId).getD [], stored)) s := by
    rw [mutateRunWithEvent, bind_eq, requireRevision_eq, hcur]
    simp only [check_bind, hmap]
    rfl
  have hinv : (putRun runId run s).Inv := inv_putRun hs (by rw [Dict.has, hrun]; rfl) run
  have hcond : Op.Atomic o s (.mutateRunWithEvent runId updates event expected bump) ↔
      (revisable o runId run event (putRun runId run s) = true ∨
        refused runId run event (putRun runId run s) = true ∧ run = current) := by
    constructor
    · intro h
      exact h current revision changes hcur hmap
    · intro h current' revision' changes' hcur' hmap'
      rw [hcur] at hcur'
      rw [hmap] at hmap'
      cases hcur'
      cases hmap'
      exact h
  rw [hcond]
  refine atomicIff_congr heq (atomic_reply (fun _ _ => ⟨_, rfl⟩) ⟨fun e s' h => ?_, fun h => ?_, ?_⟩)
  · rw [modify_bind] at h
    have hrev : ¬ revisable o runId run event (putRun runId run s) = true := by
      rw [← succeeds_recordRevised hinv]
      rintro ⟨_, _, h'⟩
      rw [h] at h'
      cases h'
    rcases recordRevised_error hinv h with ⟨href, rfl⟩ | ⟨href, hne⟩
    · rw [same_putRun hrun]
      exact ⟨fun heq => .inr ⟨href, heq⟩, fun hor => (hor.resolve_left hrev).2⟩
    · refine iff_of_false ?_ ?_
      · rintro ⟨_, rfl⟩
        exact hne rfl
      · rintro (h' | ⟨h', -⟩)
        · exact hrev h'
        · rw [href] at h'
          cases h'
  · exact .inl ((succeeds_recordRevised hinv o runId run event).mp ((succeeds_congr (modify_bind ..)).mp h))
  · exact inv_recordRevised hinv o runId run event

/-- The events are recorded one after the other, up to the first that cannot be. -/
theorem recordAll_spec (o : SetOrder) (runId : String) (run : Fields) (events : List Value) :
    (Succeeds (recordAll o runId run events) s ↔ revisableAll o runId run events s) ∧
      (recordAll o runId run events s).2.Inv ∧
      revisionOf runId (recordAll o runId run events s).2 = revisionOf runId s := by
  induction events generalizing s with
  | nil => exact ⟨iff_of_true (succeeds_pure [] s) rfl, hs, rfl⟩
  | cons value rest ih =>
    have hinv := inv_recordRevised hs o runId run value
    have hrevision := revisionOf_recordRevised hs o runId run value
    obtain ⟨hsucc, hinv', hrevision'⟩ := ih hinv
    rw [recordAll_eq]
    simp only [revisableAll, Bool.and_eq_true]
    rw [← succeeds_recordRevised hs]
    cases h : recordRevised o runId run value s with
    | mk r t =>
      rw [h] at hinv hrevision hsucc hinv' hrevision'
      cases r with
      | error fault =>
        refine ⟨iff_of_false (not_succeeds_bind h) fun h' => ?_, ?_, ?_⟩
        · obtain ⟨⟨_, _, h'⟩, -⟩ := h'
          rw [h] at h'
          cases h'
        · rw [bind_eq, h]; exact hinv
        · rw [bind_eq, h]; exact hrevision
      | ok event =>
        have hrest : ((recordRevised o runId run value >>= fun event => recordAll o runId run rest >>= fun events =>
            pure (event :: events)) s).2 = (recordAll o runId run rest t).2 := by
          rw [bind_eq, h]
          dsimp only
          rw [bind_eq]
          cases recordAll o runId run rest t with
          | mk r' t' => cases r' <;> rfl
        rw [hrest, succeeds_bind_of_eq h, succeeds_bind_pure, hsucc]
        exact ⟨⟨fun h' => ⟨⟨_, _, h⟩, h'⟩, fun h' => h'.2⟩, hinv', hrevision'.trans hrevision⟩

/-- What a result that has been stored over `m` needs of the rest of its call. -/
def concludes (o : SetOrder) (runId : String) (current stored : Fields) (revision : ℤ) (updates : Value) (events : List Value)
    (m m' : Memory) : Prop :=
  match runChanges runId updates with
  | .error _ => m.results.get runId = some stored
  | .ok changes =>
    revisableAll o runId (patched current changes (some revision)) events
      (putRun runId (patched current changes (some revision)) (putResult runId stored m')) = true

theorem atomic_finalizeRunWithResult (o : SetOrder) (runId : String) (result updates : Value)
    (events : List Value) (expected : Option ℤ) :
    AtomicIff (finalizeRunWithResult o runId result updates events expected) s
      (Op.Atomic o s (.finalizeRunWithResult runId result updates events expected)) := by
  cases hcur : currentRevision runId expected s with
  | error fault =>
    refine atomicIff_raise (e := fault) ?_ hs fun current revision stored t h => ?_
    · rw [finalizeRunWithResult, bind_eq, requireRevision_eq, hcur]
    · rw [hcur] at h; cases h
  | ok p =>
  obtain ⟨current, revision⟩ := p
  have hrun := has_of_currentRevision hcur
  have hsame := within_storedResult runId result s
  cases hstored : storedResult runId result s with
  | mk r t =>
  rw [hstored] at hsame
  obtain ⟨counters, rfl⟩ := hsame
  have ht : ({ s with idCounters := counters } : Memory).Inv := (Same.quiet ⟨counters, rfl⟩).inv hs
  cases r with
  | error fault =>
    have heq : finalizeRunWithResult o runId result updates events expected s
        = (.error fault, { s with idCounters := counters }) := by
      rw [finalizeRunWithResult, bind_eq, requireRevision_eq, hcur]
      dsimp only
      rw [bind_eq, hstored]
    have hcond : Op.Atomic o s (.finalizeRunWithResult runId result updates events expected) :=
      fun _ _ stored t _ h => by rw [hstored] at h; cases h
    refine ⟨fun e s' he => ?_, fun _ => hcond, by rw [heq]; exact ht⟩
    rw [heq] at he
    cases he
    exact iff_of_true ⟨counters, rfl⟩ hcond
  | ok stored =>
  have hcond : Op.Atomic o s (.finalizeRunWithResult runId result updates events expected) ↔
      concludes o runId current stored revision updates events s { s with idCounters := counters } := by
    constructor
    · intro h
      exact h current revision stored _ hcur hstored
    · intro h current' revision' stored' t' hcur' hstored'
      rw [hcur] at hcur'
      rw [hstored] at hstored'
      cases hcur'
      cases hstored'
      exact h
  rw [hcond]
  unfold concludes
  have hput : (putResult runId stored { s with idCounters := counters }).Inv := (quiet_putResult ..).inv ht
  cases hch : runChanges runId updates with
  | error fault =>
    have heq : finalizeRunWithResult o runId result updates events expected s
        = (.error fault, putResult runId stored { s with idCounters := counters }) := by
      rw [finalizeRunWithResult, bind_eq, requireRevision_eq, hcur]
      dsimp only
      rw [bind_eq, hstored]
      simp only [modify_bind, check_bind, hch]
    refine ⟨fun e s' he => ?_, fun h => absurd h (not_succeeds heq), by rw [heq]; exact hput⟩
    rw [heq] at he
    cases he
    exact same_putResult
  | ok changes =>
    set run := patched current changes (some revision) with hpatched
    set t := putRun runId run (putResult runId stored { s with idCounters := counters }) with hput'
    have heq : finalizeRunWithResult o runId result updates events expected s =
        ((modify (fun _ => t) >>= fun _ => recordAll o runId run events) >>= fun storedEvents =>
          get >>= fun memory => pure ((memory.runs.get runId).getD [], stored, storedEvents)) s := by
      rw [finalizeRunWithResult, bind_eq, requireRevision_eq, hcur]
      dsimp only
      rw [bind_eq, hstored]
      simp only [modify_bind, check_bind, hch]
      rfl
    have hinv : t.Inv := inv_putRun hput (by rw [Dict.has, putResult, hrun]; rfl) run
    have hrevision : revisionOf runId t = some (.int (revision + 1)) := by
      rw [hput', hpatched, revisionOf, putRun, Dict.get_set_self, Option.bind_some, revision_patched]
    obtain ⟨hsucc, hinv', hrevision'⟩ := recordAll_spec hinv o runId run events
    refine atomicIff_congr heq (atomic_reply (fun _ _ => ⟨_, rfl⟩) ⟨fun e s' h => ?_, fun h => ?_, hinv'⟩)
    case refine_2 => exact hsucc.mp ((succeeds_congr (modify_bind ..)).mp h)
    rw [modify_bind] at h
    refine iff_of_false ?_ fun hall => ?_
    · rw [h] at hrevision'
      exact patched_ne hcur s' (hrevision'.trans hrevision)
    · obtain ⟨_, _, h'⟩ := hsucc.mpr hall
      rw [h] at h'
      cases h'

omit hs in
theorem updateLocked_missing {c : Collection} {id : String} (h : (c.get s).get id = none) (updates : Value)
    (idField resource : String) :
    updateLocked c id updates idField resource s = (.error (.notFound resource id), s) := by
  rw [updateLocked, get_bind, h]
  rfl

theorem atomic_createWebhookDelivery (endpointId : String) (value : Value) :
    AtomicIff (createWebhookDelivery endpointId value) s
      (s.webhookEndpoints.has endpointId → s.webhookDeliveries.has endpointId ∨ openable endpointId value) := by
  by_cases hend : s.webhookEndpoints.has endpointId
  · have heq : createWebhookDelivery endpointId value s =
        createLocked (.webhookDeliveries endpointId) value "delivery_id" "whd" "webhook_delivery"
          [("webhook_endpoint_id", .str endpointId)] (openDeliveries endpointId s) := by
      rw [createWebhookDelivery, requireEndpoint_bind, if_pos hend, modify_bind]
    have htidy := tidy_createLocked (Collection.quiet_webhookDeliveries endpointId) value "delivery_id" "whd"
      "webhook_delivery" [("webhook_endpoint_id", .str endpointId)]
    refine ⟨fun e s' he => ?_, fun h _ => .inr (openable_of_createDelivery ((succeeds_congr heq).mp h)), ?_⟩
    · rw [heq] at he
      rw [same_openDeliveries (htidy.clean _ e s' he)]
      refine ⟨fun hhas _ => .inl hhas, fun h => ?_⟩
      by_contra hhas
      obtain ⟨_, _, h'⟩ := succeeds_createDelivery hhas ((h hend).resolve_left hhas)
      rw [he] at h'
      cases h'
    · rw [heq]
      exact (htidy.quiet _).inv ((quiet_openDeliveries endpointId s).inv hs)
  · refine atomicIff_raise (e := .notFound "webhook_endpoint" endpointId) ?_ hs fun h => absurd h hend
    rw [createWebhookDelivery, requireEndpoint_bind, if_neg hend]

theorem atomic_updateWebhookDelivery (endpointId deliveryId : String) (updates : Value) :
    AtomicIff (updateWebhookDelivery endpointId deliveryId updates) s
      (s.webhookEndpoints.has endpointId → keepsEndpoint endpointId updates →
        s.webhookDeliveries.has endpointId) := by
  by_cases hend : s.webhookEndpoints.has endpointId
  · cases harg : argument "webhook_endpoint_id" (.str endpointId) updates with
    | error fault =>
      refine atomicIff_raise (e := fault) ?_ hs fun _ h => ?_
      · rw [updateWebhookDelivery, requireEndpoint_bind, if_pos hend, check_bind, harg]
      · simp [keepsEndpoint, harg] at h
    | ok supplied =>
      cases hsame : supplied.equal (.str endpointId) with
      | false =>
        refine atomicIff_raise (e := .value "webhook_delivery.webhook_endpoint_id cannot be changed") ?_ hs
          fun _ h => ?_
        · rw [updateWebhookDelivery, requireEndpoint_bind, if_pos hend, check_bind, harg]
          simp only [hsame]
          rfl
        · simp [keepsEndpoint, harg, hsame] at h
      | true =>
        have heq : updateWebhookDelivery endpointId deliveryId updates s =
            updateLocked (.webhookDeliveries endpointId) deliveryId updates "delivery_id" "webhook_delivery"
              (openDeliveries endpointId s) := by
          rw [updateWebhookDelivery, requireEndpoint_bind, if_pos hend, check_bind, harg]
          simp only [hsame]
          rfl
        have htidy := tidy_updateLocked (Collection.quiet_webhookDeliveries endpointId) deliveryId updates
          "delivery_id" "webhook_delivery"
        refine ⟨fun e s' he => ?_, fun h _ _ => ?_, ?_⟩
        · rw [heq] at he
          rw [same_openDeliveries (htidy.clean _ e s' he)]
          exact ⟨fun hhas _ _ => hhas, fun h => h hend (by simp [keepsEndpoint, harg, hsame])⟩
        · by_contra hhas
          have hmissing : ((Collection.webhookDeliveries endpointId).get (openDeliveries endpointId s)).get deliveryId
              = none := by rw [open_empty hhas]; rfl
          exact not_succeeds (updateLocked_missing hmissing ..) ((succeeds_congr heq).mp h)
        · rw [heq]
          exact (htidy.quiet _).inv ((quiet_openDeliveries endpointId s).inv hs)
  · refine atomicIff_raise (e := .notFound "webhook_endpoint" endpointId) ?_ hs fun h => absurd h hend
    rw [updateWebhookDelivery, requireEndpoint_bind, if_neg hend]

theorem atomic_completeIdempotentRequest (operation key fingerprint : String) (statusCode : ℤ) (body : Value)
    (headers : Fields) :
    AtomicIff (completeIdempotentRequest operation key fingerprint statusCode body headers) s
      (∀ identity, idempotencyIdentity operation key fingerprint = .ok identity →
        s.idempotency.has identity ∨ (storedResponse statusCode body headers).isOk) := by
  cases hid : idempotencyIdentity operation key fingerprint with
  | error fault =>
    refine atomicIff_raise (e := fault) ?_ hs fun _ h => (by cases h)
    rw [completeIdempotentRequest, check_bind, hid]
  | ok identity =>
  have hquiet : Within Quiet (completeIdempotentRequest operation key fingerprint statusCode body headers) := by
    refine within_bind Quiet.trans (within_check Quiet.refl _) fun identity => ?_
    refine within_bind Quiet.trans (within_get Quiet.refl) fun memory => ?_
    refine within_bind Quiet.trans (fun s => quiet_putRecord _ _ s) fun _ => ?_
    split
    · exact within_raise Quiet.refl _
    split
    · exact within_pure Quiet.refl _
    refine within_bind Quiet.trans (within_check Quiet.refl _) fun response => ?_
    exact fun s => quiet_putRecord _ _ s
  have hdone : Succeeds (completeIdempotentRequest operation key fingerprint statusCode body headers) s →
      s.idempotency.has identity ∨ (storedResponse statusCode body headers).isOk := fun h => by
    rw [completeIdempotentRequest, succeeds_check_bind] at h
    obtain ⟨_, hid', h⟩ := h
    cases hid.symm.trans hid'
    rw [succeeds_congr (get_bind _ _)] at h
    cases hget : s.idempotency.get identity with
    | some record => exact .inl (by rw [Dict.has, hget]; rfl)
    | none =>
      simp only [hget, Option.getD_none, ne_eq, not_true, if_false] at h
      rw [succeeds_congr (modify_bind ..), succeeds_check_bind] at h
      obtain ⟨response, hstored, -⟩ := h
      exact .inr (by rw [hstored]; rfl)
  refine ⟨fun e s' he => ?_, fun h identity' h' => by cases h'; exact hdone h, (hquiet s).inv hs⟩
  rw [completeIdempotentRequest, check_bind, hid] at he
  dsimp only at he
  rw [get_bind, modify_bind] at he
  set record := (s.idempotency.get identity).getD ⟨fingerprint, none⟩ with hrecord
  have hput : Same s (putRecord identity record s) ↔ s.idempotency.has identity := same_putRecord
  by_cases hmatch : record.requestFingerprint ≠ fingerprint
  · rw [if_pos hmatch] at he
    cases he
    have hhas : s.idempotency.has identity := by
      by_contra hhas
      rw [Dict.has, Option.not_isSome_iff_eq_none] at hhas
      rw [hrecord, hhas] at hmatch
      exact hmatch rfl
    exact iff_of_true (hput.mpr hhas) fun identity' h => by cases h; exact .inl hhas
  · rw [if_neg hmatch] at he
    cases hresponse : record.response with
    | some response => simp only [hresponse] at he; cases he
    | none =>
      simp only [hresponse] at he
      cases hstored : storedResponse statusCode body headers with
      | ok response => rw [check_bind, hstored] at he; cases he
      | error fault =>
        rw [check_bind, hstored] at he
        cases he
        rw [hput]
        refine ⟨fun hhas identity' h => by cases h; exact .inl hhas, fun h => ?_⟩
        exact (h identity rfl).resolve_right (by simp [Except.isOk, Except.toBool])

end Operations

end AutomlApi.Store
