import AutomlApi.Store.Chronicle

/-! The webhook deliveries that the store makes of the events it logs. Every delivery is of an
event that is in the log of its run, an endpoint has at most one of an event, and an append
makes one for exactly the endpoints that the run names and that take the event. -/

namespace AutomlApi.Outbox

open Store Chronicle Runs Act

/-! ### One event -/

/-- The ids of the events that an endpoint has deliveries of. -/
def noticed (m : Memory) (endpointId : String) : List String :=
  (deliveriesOf m endpointId).map fun p => eventId p.2

/-- The endpoint takes the event of the run. -/
def Takes (m : Memory) (run event : Fields) (endpointId : String) : Prop :=
  subscribed m run event endpointId = .ok true

theorem eventId_eq_iff {fields : Fields} {id : String} (hne : id ≠ "") :
    eventId fields = id ↔ fields.get "event_id" = some (.str id) := by
  unfold eventId
  cases fields.get "event_id" with
  | none => simp [Ne.symm hne]
  | some v =>
    cases v with
    | str text =>
      simp only [Option.bind_some, Value.nonEmptyString?, Option.some.injEq, Value.str.injEq]
      split
      · rename_i htext
        simp [htext]
      · simp
    | _ => simp [Value.nonEmptyString?, Ne.symm hne]

theorem delivered_iff {m : Memory} {event : Fields} {id : String} (hid : event.get "event_id" = some (.str id))
    (hne : id ≠ "") (endpointId : String) : delivered m event endpointId = true ↔ id ∈ noticed m endpointId := by
  simp only [delivered, noticed, List.any_eq_true, List.mem_map, hid, Option.getD_some, Value.equal_str]
  refine exists_congr fun p => and_congr_right fun _ => ?_
  rw [eventId_eq_iff hne]
  cases p.2.get "event_id" <;> simp

/-- What the loop over some endpoints does, wherever it ends: an endpoint has what it had, or the delivery of
the event besides. -/
def Served (run event : Fields) (ids : List String) (s t : Memory) : Prop :=
  ∀ d, deliveriesOf t d = deliveriesOf s d ∨
    d ∈ ids ∧ Takes s run event d ∧ eventId event ∉ noticed s d ∧
      ∃ k item, DeliveryOf run event item ∧ deliveriesOf t d = deliveriesOf s d ++ [(k, item)]

theorem Served.noticed {run event : Fields} {ids : List String} {s t : Memory} (h : Served run event ids s t)
    {d id : String} (hid : id ∈ noticed s d) : id ∈ noticed t d := by
  unfold Outbox.noticed at hid ⊢
  rcases h d with heq | ⟨-, -, -, k, item, -, heq⟩
  · rwa [heq]
  · rw [heq, List.map_append]
    exact List.mem_append_left _ hid

/-- The loop goes on from a state with the same deliveries. -/
theorem Served.congr {run event : Fields} {ids ids' : List String} {s s' t : Memory} (h : Served run event ids s' t)
    (hids : ids ⊆ ids') (hendpoints : s'.webhookEndpoints = s.webhookEndpoints)
    (hdeliveries : ∀ d, deliveriesOf s' d = deliveriesOf s d) : Served run event ids' s t := fun d => by
  rcases h d with heq | ⟨hd, htakes, hnew, k, item, hitem, heq⟩
  · exact .inl (heq.trans (hdeliveries d))
  · refine .inr ⟨hids hd, ?_, ?_, k, item, hitem, by rw [heq, hdeliveries]⟩
    · rwa [Takes, ← subscribed_congr hendpoints]
    · rwa [Outbox.noticed, ← hdeliveries]

theorem served_deliver (run : Fields) {event : Fields} {id : String} (hid : event.get "event_id" = some (.str id))
    (hne : id ≠ "") {ids : List String} (hnd : ids.Nodup) (s : Memory) :
    Served run event ids s (deliver run event ids s).2 ∧
      ((deliver run event ids s).1.isOk → ∀ d ∈ ids, Takes s run event d →
        eventId event ∈ noticed (deliver run event ids s).2 d) := by
  have hevent : eventId event = id := (eventId_eq_iff hne).mpr hid
  induction ids generalizing s with
  | nil => exact ⟨fun d => .inl rfl, by simp⟩
  | cons first rest ih =>
    obtain ⟨hfirst, hnd⟩ := List.nodup_cons.mp hnd
    have hsub : rest ⊆ first :: rest := List.subset_cons_self _ _
    rw [deliver_cons]
    cases hsubscribed : subscribed s run event first with
    | error fault => exact ⟨fun d => .inl rfl, fun h => by cases h⟩
    | ok takes =>
      cases takes with
      | false =>
        obtain ⟨hserved, hall⟩ := ih hnd s
        refine ⟨hserved.congr hsub rfl fun _ => rfl, fun hok d hd htakes => ?_⟩
        rcases List.mem_cons.mp hd with rfl | hd
        · rw [Takes, hsubscribed] at htakes
          cases htakes
        · exact hall hok d hd htakes
      | true =>
        dsimp only
        by_cases hdelivered : delivered s event first = true
        · rw [if_pos hdelivered]
          obtain ⟨hserved, hall⟩ := ih hnd (openDeliveries first s)
          have hserved := hserved.congr (s := s) hsub rfl (deliveriesOf_open s first)
          refine ⟨hserved, fun hok d hd htakes => ?_⟩
          rcases List.mem_cons.mp hd with rfl | hd
          · exact hserved.noticed (hevent ▸ (delivered_iff hid hne _).mp hdelivered)
          · exact hall hok d hd htakes
        · rw [if_neg hdelivered]
          have hnew : eventId event ∉ noticed s first := fun h =>
            hdelivered ((delivered_iff hid hne first).mpr (hevent ▸ h))
          obtain ⟨item, counters, -, -, hitem, hinsert⟩ := insert_delivery run event first (openDeliveries first s)
          by_cases htaken : (deliveriesOf (openDeliveries first s) first).has
              (formatId "whd" (counterOf (openDeliveries first s) "whd" + 1))
          · rw [if_pos htaken] at hinsert
            rw [bind_of_error hinsert]
            exact ⟨fun d => .inl (deliveriesOf_open s first d), fun h => by cases h⟩
          · rw [if_neg htaken] at hinsert
            rw [bind_of_ok hinsert]
            set k := formatId "whd" (counterOf (openDeliveries first s) "whd" + 1)
            set u : Memory := { openDeliveries first s with
              idCounters := counters
              webhookDeliveries := (openDeliveries first s).webhookDeliveries.set first
                ((deliveriesOf (openDeliveries first s) first).set k item) } with hu
            have hadded : deliveriesOf u first = deliveriesOf s first ++ [(k, item)] := by
              have hkeys : k ∉ (deliveriesOf s first).map Prod.fst := fun hk => by
                obtain ⟨p, hp, hpk⟩ := List.mem_map.mp hk
                refine htaken ?_
                rw [deliveriesOf_open, ← hpk]
                exact has_of_mem hp
              rw [deliveriesOf, hu]
              dsimp only
              rw [Dict.get_set_self, Option.getD_some, deliveriesOf_open, Dict.set_of_fresh hkeys]
            have hother : ∀ d, d ≠ first → deliveriesOf u d = deliveriesOf s d := fun d hd => by
              rw [deliveriesOf, hu]
              dsimp only
              rw [Dict.get_set, if_neg hd]
              exact deliveriesOf_open s first d
            obtain ⟨hserved, hall⟩ := ih hnd u
            have hrest : Served run event (first :: rest) s (deliver run event rest u).2 := fun d => by
              rcases hserved d with heq | ⟨hd, htakes, hnew', k', item', hitem', heq⟩
              · by_cases hd : d = first
                · subst hd
                  exact .inr ⟨List.mem_cons_self, hsubscribed, hnew, k, item, hitem, heq.trans hadded⟩
                · exact .inl (heq.trans (hother d hd))
              · have hd' : d ≠ first := fun h => hfirst (h ▸ hd)
                refine .inr ⟨hsub hd, htakes, ?_, k', item', hitem', by rw [heq, hother d hd']⟩
                rwa [Outbox.noticed, ← hother d hd']
            refine ⟨hrest, fun hok d hd htakes => ?_⟩
            rcases List.mem_cons.mp hd with rfl | hd
            · refine hserved.noticed ?_
              rw [noticed, hadded, List.map_append]
              refine List.mem_append_right _ (List.mem_singleton.mpr ?_)
              have hname : item.get "event_id" = some (.str id) := by
                rw [hitem "event_id" (by decide)]
                simp [delivery, Dict.get_cons, hid]
              show eventId event = eventId item
              rw [hevent, (eventId_eq_iff hne).mpr hname]
            · exact hall hok d hd htakes

/-! ### Recording -/

/-- The endpoints that a run names. -/
def selected (o : SetOrder) (m : Memory) (runId : String) : List String :=
  match selectedEndpointIds o ((m.runs.get runId).getD []) with
  | .ok ids => ids
  | .error _ => []

theorem named_stamped {runId : String} {value : Value} {m : Memory} {event : Fields}
    (h : prepareEvent runId value m = .ok (.fresh event)) :
    ∃ id, (stamped runId event m).get "event_id" = some (.str id) ∧ id ≠ "" := by
  obtain ⟨-, -, hnone | hnull | ⟨id, hid, hne, -⟩⟩ := prepareEvent_fresh h
  · exact ⟨_, by rw [get_id_stamped, identified, hnone, Dict.get_set_self], formatId_ne _ _⟩
  · exact ⟨_, by rw [get_id_stamped, identified, hnull, Dict.get_set_self], formatId_ne _ _⟩
  · exact ⟨id, by rw [get_id_stamped, identified, hid, hid], hne⟩

theorem get_run_stamped {runId : String} {value : Value} {m : Memory} {event : Fields}
    (h : prepareEvent runId value m = .ok (.fresh event)) :
    (stamped runId event m).get "run_id" = some (.str runId) := by
  obtain ⟨-, hrun, -⟩ := prepareEvent_fresh h
  have hidentified : (identified event m).get "run_id" = some (.str runId) := by
    unfold identified
    split
    · rw [Dict.get_set, if_neg (by decide), hrun]
    · rw [Dict.get_set, if_neg (by decide), hrun]
    · exact hrun
  simp only [stamped, Dict.setDefault]
  split
  · rw [Dict.get_set, if_neg (by decide), hidentified]
  · rw [Dict.get_set, if_neg (by decide), Dict.get_set, if_neg (by decide), hidentified]

/-- A new event is put to the log of its run, and then the endpoints that the run names are served. -/
theorem recordEvent_fresh (o : SetOrder) {runId : String} {value : Value} {m : Memory} (hm : m.Inv) {event : Fields}
    (h : prepareEvent runId value m = .ok (.fresh event)) :
    ∃ counters t, t = pushEvent runId (stamped runId event m) { m with idCounters := counters } ∧
      Posted t (recordEvent o runId value m).2 ∧
      Served ((t.runs.get runId).getD []) (stamped runId event m) (selected o t runId) t
        (recordEvent o runId value m).2 ∧
      ((recordEvent o runId value m).1.isOk → ∀ d ∈ selected o t runId,
        Takes t ((t.runs.get runId).getD []) (stamped runId event m) d →
          eventId (stamped runId event m) ∈ noticed (recordEvent o runId value m).2 d) := by
  obtain ⟨_, ⟨counters, rfl⟩, -, -, happ⟩ := append_fresh hm h
  obtain ⟨id, hid, hne⟩ := named_stamped h
  refine ⟨counters, _, rfl, ?_⟩
  set e := stamped runId event m
  set t := pushEvent runId e { m with idCounters := counters }
  have hrecord : recordEvent o runId value m = (appendWebhookDeliveriesLocked o runId e >>= fun _ => pure e) t := by
    rw [recordEvent, bind_eq, happ]
    rfl
  have hposted : Posted t (recordEvent o runId value m).2 := by
    rw [hrecord]
    exact within_bind Posted.trans (posted_announce o runId _) (fun _ => within_pure Posted.refl _) _
  refine ⟨hposted, ?_⟩
  rw [hrecord, bind_eq, appendWebhookDeliveriesLocked, get_bind, check_bind]
  unfold selected
  cases hids : selectedEndpointIds o ((t.runs.get runId).getD []) with
  | error fault => exact ⟨fun d => .inl rfl, fun h => by cases h⟩
  | ok ids =>
    have hserved := served_deliver ((t.runs.get runId).getD []) hid hne (nodup_selectedEndpointIds hids) t
    dsimp only
    revert hserved
    cases deliver ((t.runs.get runId).getD []) e ids t with
    | mk r u =>
      cases r with
      | ok _ => exact fun hserved => ⟨hserved.1, fun _ => hserved.2 rfl⟩
      | error fault => exact fun hserved => ⟨hserved.1, fun h => by cases h⟩

/-! ### The deliveries and the logs -/

/-- The delivery is of this event of the run. -/
structure Announces (item event : Fields) (runId : String) : Prop where
  named : item.get "event_id" = some (.str (eventId event))
  owned : item.get "run_id" = some (.str runId)
  typed : item.get "event_type" = some ((event.get "type").getD .null)

/-- Every delivery is of an event that its run has logged, and an endpoint has one of an event. -/
structure Truthful (m : Memory) : Prop where
  distinct : ∀ d, (noticed m d).Nodup
  logged : ∀ d, ∀ p ∈ deliveriesOf m d, ∃ r, m.runs.has r ∧ ∃ event ∈ logOf m r, Announces p.2 event r

theorem announces_stamped {run : Fields} {runId : String} {value : Value} {m : Memory} {event item : Fields}
    (h : prepareEvent runId value m = .ok (.fresh event)) (hitem : DeliveryOf run (stamped runId event m) item) :
    Announces item (stamped runId event m) runId := by
  obtain ⟨id, hid, hne⟩ := named_stamped h
  have hrun : (stamped runId event m).get "run_id" = some (.str runId) := get_run_stamped h
  have hget : ∀ k ∉ ownFields, item.get k = (delivery run (stamped runId event m)).get k := hitem
  refine ⟨?_, ?_, ?_⟩
  · rw [hget _ (by decide), (eventId_eq_iff hne).mpr hid]
    simp [delivery, Dict.get_cons, hid]
  · rw [hget _ (by decide)]
    simp [delivery, Dict.get_cons, hrun]
  · rw [hget _ (by decide)]
    simp [delivery, Dict.get_cons]

/-- Where the logs only grow and the deliveries are the same, they stay truthful. -/
theorem Truthful.grows {s t : Memory} (h : Truthful s) (hdeliveries : ∀ d, deliveriesOf t d = deliveriesOf s d)
    (hgrows : ∀ r, Grows r s t) : Truthful t := by
  refine ⟨fun d => ?_, fun d p hp => ?_⟩
  · rw [noticed, hdeliveries]
    exact h.distinct d
  · rw [hdeliveries] at hp
    obtain ⟨r, hr, event, he, ha⟩ := h.logged d p hp
    obtain ⟨hr', hlog⟩ := hgrows r hr
    exact ⟨r, hr', event, hlog.subset he, ha⟩

theorem truthful_recordEvent (o : SetOrder) {m : Memory} (hm : m.Inv) (h : Truthful m) (runId : String)
    (value : Value) :
    Truthful (recordEvent o runId value m).2 := by
  cases hp : prepareEvent runId value m with
  | error fault =>
    have heq : (recordEvent o runId value m).2 = m := by
      rw [recordEvent, bind_eq, append_error hp]
    rwa [heq]
  | ok prepared =>
    cases prepared with
    | existing event =>
      have heq : (recordEvent o runId value m).2 = m := by
        rw [recordEvent, bind_eq, append_existing hp]
        rfl
      rwa [heq]
    | fresh event =>
      obtain ⟨counters, t, ht, hposted, hserved, -⟩ := recordEvent_fresh o hm hp
      have hlog : logOf t runId = logOf m runId ++ [stamped runId event m] := by
        rw [ht]
        simp only [logOf, pushEvent, Dict.get_set_self, Option.getD_some]
      have hrun : t.runs.has runId := by
        rw [ht, pushEvent, Dict.has_set, decide_eq_true rfl, Bool.true_or]
      have hgrows : ∀ r, Grows r m t := fun r hr => by
        refine ⟨by rw [ht, pushEvent, Dict.has_set]; exact Bool.or_eq_true_iff.mpr (.inr hr), ?_⟩
        by_cases hid : r = runId
        · rw [hid, hlog]
          exact List.prefix_append _ _
        · rw [ht]
          simp only [logOf, pushEvent, Dict.get_set, if_neg hid]
          exact List.prefix_rfl
      have hpushed : Truthful t := h.grows (fun d => by rw [ht]; rfl) hgrows
      have hlogs : ∀ r, logOf (recordEvent o runId value m).2 r = logOf t r := fun r => by
        rw [logOf, hposted.events, logOf]
      refine ⟨fun d => ?_, fun d p hp' => ?_⟩
      · rcases hserved d with heq | ⟨-, -, hnew, k, item, hitem, heq⟩
        · rw [noticed, heq]
          exact hpushed.distinct d
        · obtain ⟨id, hid, hne⟩ := named_stamped hp
          have hname := (announces_stamped hp hitem).named
          have hevent : eventId item = eventId (stamped runId event m) :=
            (eventId_eq_iff (by rw [(eventId_eq_iff hne).mpr hid]; exact hne)).mpr hname
          rw [noticed, heq, List.map_append, List.map_singleton, hevent, List.nodup_append]
          refine ⟨hpushed.distinct d, List.nodup_singleton _, fun a ha b hb hab => hnew ?_⟩
          rw [← List.mem_singleton.mp hb, ← hab]
          exact ha
      · have hold : p ∈ deliveriesOf t d → ∃ r, (recordEvent o runId value m).2.runs.has r ∧
            ∃ e ∈ logOf (recordEvent o runId value m).2 r, Announces p.2 e r := fun hp' => by
          obtain ⟨r, hr, e, he, ha⟩ := hpushed.logged d p hp'
          exact ⟨r, by rw [hposted.runs]; exact hr, e, by rw [hlogs]; exact he, ha⟩
        rcases hserved d with heq | ⟨-, -, -, k, item, hitem, heq⟩
        · exact hold (heq ▸ hp')
        · rw [heq] at hp'
          rcases List.mem_append.mp hp' with hp' | hp'
          · exact hold hp'
          · rw [List.mem_singleton.mp hp']
            refine ⟨runId, by rw [hposted.runs]; exact hrun, stamped runId event m, ?_, announces_stamped hp hitem⟩
            rw [hlogs, hlog]
            exact List.mem_append_right _ (List.mem_singleton_self _)

theorem recorded_truthful (o : SetOrder) : Recorded o (fun _ _ => True) Truthful where
  drawn {s t} hsame _ h := by
    refine h.grows (fun d => ?_) fun r => (logFrame_grows o r).same hsame
    obtain ⟨_, rfl⟩ := hsame
    rfl
  result h _ _ := h.grows (fun _ => rfl) fun r => (rests_of_eq rfl rfl).grows
  patched h _ _ _ _ _ := h.grows (fun _ => rfl) fun r => (rests_putRun r _ _ _).grows
  recorded hm h runId value _ := truthful_recordEvent o hm h runId value
  later _ _ _ := trivial
  revised _ _ _ _ := trivial

/-! ### The operations that record nothing -/

/-- What an operation leaves of a delivery. -/
def announcedFields : List String := ["event_id", "run_id", "event_type"]

/-- No delivery is made, and what a delivery says of its event stays. -/
def quietly : Terms where
  created shelf _ := ∀ d, shelf ≠ .webhookDeliveries d
  changed shelf changes := (∃ d, shelf = .webhookDeliveries d) → ∀ k ∈ announcedFields, changes.get k = none
  logged _ := False

/-- The call makes no delivery by itself, and does not change what a delivery says of its event. -/
def Spares : Op → Prop
  | .createWebhookDelivery .. => False
  | .updateWebhookDelivery _ _ updates => Meets (fun changes => ∀ k ∈ announcedFields, changes.get k = none) updates
  | _ => True

theorem meets_all {P : Fields → Prop} (h : ∀ fields, P fields) (value : Value) : Meets P value := by
  cases value with
  | dict fields => exact h fields
  | _ => trivial

theorem meets_quietly {op : Op} (h : Spares op) (hrecords : op.records = none) (hreset : op ≠ .reset) :
    op.Meets quietly := by
  cases op with
  | reset => exact absurd rfl hreset
  | appendEvent runId value => cases hrecords
  | mutateRunWithEvent runId updates event expected bump => cases hrecords
  | finalizeRunWithResult runId result updates events expected => cases hrecords
  | createWebhookDelivery endpointId value => exact h.elim
  | updateWebhookDelivery endpointId deliveryId updates => exact meets_mono (fun _ hf _ => hf) h
  | createDatasetWithVersion dataset version =>
    exact ⟨meets_all (fun _ _ => by simp) dataset, meets_all (fun _ _ => by simp) version⟩
  | createDecisionPacket runId value => exact meets_all (fun _ _ _ => by simp) value
  | createRun value => exact meets_all (fun _ _ => by simp) value
  | _ => first | exact meets_all (fun _ _ => by simp) _ | exact meets_all (fun _ h => by simp at h) _ | exact trivial

theorem map_set_of_get {α β : Type} {d : Dict String α} {k : String} {v w : α} (h : d.get k = some w) {f : α → β}
    (hf : f v = f w) : (d.set k v).map (fun p => f p.2) = d.map fun p => f p.2 := by
  induction d with
  | nil => cases h
  | cons p d ih =>
    rw [Dict.get_cons] at h
    unfold Dict.set
    by_cases hp : p.1 = k
    · rw [if_pos hp] at h ⊢
      cases h
      rw [List.map_cons, List.map_cons, hf]
    · rw [if_neg hp] at h ⊢
      rw [List.map_cons, List.map_cons, ih h]

/-- No delivery comes, none goes, and each stays with its event. -/
structure Undisturbed (s t : Memory) : Prop where
  noticed : ∀ d, noticed t d = noticed s d
  items : ∀ d, ∀ p ∈ deliveriesOf t d, ∃ q ∈ deliveriesOf s d, ∀ k ∈ announcedFields, p.2.get k = q.2.get k
  grows : ∀ r, Grows r s t

theorem Undisturbed.refl (s : Memory) : Undisturbed s s :=
  ⟨fun _ => rfl, fun _ p hp => ⟨p, hp, fun _ _ => rfl⟩, fun _ h => ⟨h, List.prefix_rfl⟩⟩

theorem Undisturbed.trans (s t u : Memory) (h : Undisturbed s t) (h' : Undisturbed t u) : Undisturbed s u where
  noticed d := (h'.noticed d).trans (h.noticed d)
  items d p hp := by
    obtain ⟨q, hq, hpq⟩ := h'.items d p hp
    obtain ⟨q', hq', hqq⟩ := h.items d q hq
    exact ⟨q', hq', fun k hk => (hpq k hk).trans (hqq k hk)⟩
  grows r hr := by
    obtain ⟨ht, hpre⟩ := h.grows r hr
    obtain ⟨hu, hpre'⟩ := h'.grows r ht
    exact ⟨hu, hpre.trans hpre'⟩

theorem undisturbed_of_eq {s t : Memory} (hdeliveries : ∀ d, deliveriesOf t d = deliveriesOf s d)
    (hgrows : ∀ r, Grows r s t) : Undisturbed s t :=
  ⟨fun d => by rw [noticed, hdeliveries, noticed], fun d p hp => ⟨p, hdeliveries d ▸ hp, fun _ _ => rfl⟩, hgrows⟩

theorem Undisturbed.truthful {s t : Memory} (h : Undisturbed s t) (hs : Truthful s) : Truthful t := by
  refine ⟨fun d => h.noticed d ▸ hs.distinct d, fun d p hp => ?_⟩
  obtain ⟨q, hq, hpq⟩ := h.items d p hp
  obtain ⟨r, hr, event, he, hnamed, howned, htyped⟩ := hs.logged d q hq
  obtain ⟨hr', hlog⟩ := h.grows r hr
  exact ⟨r, hr', event, hlog.subset he, (hpq _ (by decide)).trans hnamed, (hpq _ (by decide)).trans howned,
    (hpq _ (by decide)).trans htyped⟩

theorem eventId_congr {a b : Fields} (h : a.get "event_id" = b.get "event_id") : eventId a = eventId b := by
  rw [eventId, h, eventId]

theorem deliveriesOf_put (shelf : Shelf) (m : Memory) (d : Dict String Fields) (endpointId : String) :
    deliveriesOf (shelf.put m d) endpointId =
      if .webhookDeliveries endpointId = shelf then d else deliveriesOf m endpointId :=
  Shelf.items_put shelf (.webhookDeliveries endpointId) m d

theorem grows_put {shelf : Shelf} (hruns : shelf ≠ .runs) (m : Memory) (d : Dict String Fields) (r : String) :
    Grows r m (shelf.put m d) :=
  Rests.grows (rests_of_eq (runs_put hruns m d) (by cases shelf <;> rfl))

theorem undisturbed_write {m₀ s t : Memory} (h : Write m₀ quietly s t) : Undisturbed s t := by
  cases h with
  | draw kind => exact undisturbed_of_eq (fun _ => rfl) fun r => (rests_of_eq rfl rfl).grows
  | @insert shelf given item id hc hnew hruns =>
    refine undisturbed_of_eq (fun d => ?_) (grows_put hruns s _)
    rw [deliveriesOf_put, if_neg fun h => hc d h.symm]
  | @insertRun given item id hc hnew =>
    refine undisturbed_of_eq (fun _ => rfl) fun r hr => ?_
    have hne : r ≠ id := by
      rintro rfl
      rw [Dict.has, show s.runs.get r = none from hnew.free] at hr
      cases hr
    refine ⟨?_, ?_⟩
    · rw [openRun, putRun, Dict.has_set, hr, Bool.or_true]
    · simp only [logOf, openRun, putRun, Dict.get_set, if_neg hne]
      exact List.prefix_rfl
  | @update shelf id current changes hu hget hruns =>
    have hsame : ∀ d, .webhookDeliveries d = shelf → ∀ k ∈ announcedFields,
        (current.update (changes.erase shelf.idField)).get k = current.get k := fun d hd k hk => by
      refine Dict.get_update_of_get_eq_none ?_ _
      rw [Dict.get_erase, hu ⟨d, hd.symm⟩ k hk, ite_self]
    refine ⟨fun d => ?_, fun d p hp => ?_, grows_put hruns s _⟩
    · rw [noticed, deliveriesOf_put]
      split
      · rename_i hd
        subst hd
        exact map_set_of_get hget (eventId_congr (hsame d rfl _ (by decide)))
      · rfl
    · rw [deliveriesOf_put] at hp
      split at hp
      · rename_i hd
        subst hd
        rcases Dict.mem_set hp with rfl | hp
        · exact ⟨(id, current), Dict.mem_of_get hget, hsame d rfl⟩
        · exact ⟨p, hp, fun _ _ => rfl⟩
      · exact ⟨p, hp, fun _ _ => rfl⟩
  | updateRun hu hget revision => exact undisturbed_of_eq (fun _ => rfl) fun r => (rests_putRun r _ _ _).grows
  | log hrun he hgiven => exact he.elim
  | openApprovals runId => exact undisturbed_of_eq (fun _ => rfl) fun r => (rests_of_eq rfl rfl).grows
  | openDeliveries endpointId =>
    exact undisturbed_of_eq (deliveriesOf_open s endpointId) fun r => (rests_of_eq rfl rfl).grows
  | forget datasetId => exact undisturbed_of_eq (fun _ => rfl) fun r => (rests_of_eq rfl rfl).grows
  | result runId result => exact undisturbed_of_eq (fun _ => rfl) fun r => (rests_of_eq rfl rfl).grows
  | idempotency d => exact undisturbed_of_eq (fun _ => rfl) fun r => (rests_of_eq rfl rfl).grows

theorem undisturbed_method (o : SetOrder) {op : Op} (h : Spares op) (hrecords : op.records = none)
    (hreset : op ≠ .reset) (m : Memory) : Undisturbed m (op.method o m).2 :=
  (Op.writes o (meets_quietly h hrecords hreset)).climb Undisturbed.refl Undisturbed.trans undisturbed_write

theorem truthful_method (o : SetOrder) {op : Op} (h : Spares op) (hreset : op ≠ .reset) {m : Memory} (hm : m.Inv)
    (ht : Truthful m) : Truthful (op.method o m).2 := by
  by_cases hrecords : op.records = none
  · exact (undisturbed_method o h hrecords hreset m).truthful ht
  · refine (recorded_truthful o).method hm ht hrecords ?_
    cases op <;> simp [Op.Brings]

/-! ### What a call that records announces -/

def runOf (m : Memory) (runId : String) : Fields := (m.runs.get runId).getD []

/-- The endpoints are the same, and the run but for the number of its last event. -/
structure SameChoice (runId : String) (s t : Memory) : Prop where
  endpoints : t.webhookEndpoints = s.webhookEndpoints
  run : ∀ k, k ≠ "snapshot_seq" → (runOf t runId).get k = (runOf s runId).get k

theorem SameChoice.trans {runId : String} {s t u : Memory} (h : SameChoice runId s t) (h' : SameChoice runId t u) :
    SameChoice runId s u :=
  ⟨h'.endpoints.trans h.endpoints, fun k hk => (h'.run k hk).trans (h.run k hk)⟩

theorem SameChoice.selected {runId : String} {s t : Memory} (h : SameChoice runId s t) (o : SetOrder) :
    selected o t runId = selected o s runId := by
  have hids := h.run "webhook_endpoint_ids" (by decide)
  unfold runOf at hids
  simp only [Outbox.selected, selectedEndpointIds, hids]

theorem SameChoice.takes {runId : String} {s t : Memory} (h : SameChoice runId s t) (event : Fields) (d : String) :
    Takes t (runOf t runId) event d ↔ Takes s (runOf s runId) event d := by
  have htenant := h.run "tenant_id" (by decide)
  simp only [Takes, subscribed, h.endpoints, htenant]

/-- New events are at the end of the log, and each is announced to the endpoints that the run names and that
take it, and to no other. -/
def Posts (o : SetOrder) (runId : String) (s t : Memory) : Prop :=
  ∃ new, logOf t runId = logOf s runId ++ new ∧ ∀ d id, id ∈ noticed t d ↔ id ∈ noticed s d ∨
    ∃ event ∈ new, eventId event = id ∧ d ∈ selected o t runId ∧ Takes t (runOf t runId) event d

theorem Posts.refl (o : SetOrder) (runId : String) (s : Memory) : Posts o runId s s :=
  ⟨[], (List.append_nil _).symm, fun d id => by simp⟩

theorem Posts.trans {o : SetOrder} {runId : String} {s t u : Memory} (h : Posts o runId s t) (h' : Posts o runId t u)
    (hchoice : SameChoice runId t u) : Posts o runId s u := by
  obtain ⟨new, hlog, hposts⟩ := h
  obtain ⟨new', hlog', hposts'⟩ := h'
  refine ⟨new ++ new', by rw [hlog', hlog, List.append_assoc], fun d id => ?_⟩
  rw [hposts', hposts, or_assoc]
  refine or_congr_right ?_
  simp only [← hchoice.selected o, ← hchoice.takes, List.mem_append, or_and_right, exists_or]

theorem posts_recordEvent (o : SetOrder) {m : Memory} (hm : m.Inv) (runId : String) (value : Value)
    (hok : (recordEvent o runId value m).1.isOk) :
    Posts o runId m (recordEvent o runId value m).2 ∧ SameChoice runId m (recordEvent o runId value m).2 := by
  cases hp : prepareEvent runId value m with
  | error fault =>
    rw [recordEvent, bind_eq, append_error hp] at hok
    cases hok
  | ok prepared =>
    cases prepared with
    | existing event =>
      have heq : (recordEvent o runId value m).2 = m := by
        rw [recordEvent, bind_eq, append_existing hp]
        rfl
      rw [heq]
      exact ⟨Posts.refl o runId m, rfl, fun _ _ => rfl⟩
    | fresh event =>
      obtain ⟨counters, t, ht, hposted, hserved, hall⟩ := recordEvent_fresh o hm hp
      obtain ⟨id, hid, hne⟩ := named_stamped hp
      have hevent := (eventId_eq_iff hne).mpr hid
      set e := stamped runId event m
      set u := (recordEvent o runId value m).2
      have hafter : SameChoice runId t u := by
        obtain ⟨_, _, hu⟩ := hposted
        rw [hu]
        exact ⟨rfl, fun _ _ => rfl⟩
      have hbefore : SameChoice runId m t := by
        refine ⟨by rw [ht]; rfl, fun k hk => ?_⟩
        rw [ht, runOf, pushEvent, Dict.get_set_self, Option.getD_some, Dict.get_set, if_neg hk]
        rfl
      refine ⟨⟨[e], ?_, fun d id' => ?_⟩, hbefore.trans hafter⟩
      · rw [logOf, hposted.events, ht]
        simp only [logOf, pushEvent, Dict.get_set_self, Option.getD_some]
      · have hsame : noticed t d = noticed m d := by
          rw [ht]
          rfl
        simp only [List.mem_singleton, exists_eq_left, hafter.selected o, hafter.takes]
        constructor
        · intro hmem
          rcases hserved d with heq | ⟨hd, htakes, -, k, item, hitem, heq⟩
          · rw [noticed, heq] at hmem
            exact .inl (hsame ▸ hmem)
          · rw [noticed, heq, List.map_append] at hmem
            rcases List.mem_append.mp hmem with hmem | hmem
            · exact .inl (hsame ▸ hmem)
            · refine .inr ⟨?_, hd, htakes⟩
              have hname := (announces_stamped hp hitem).named
              rw [List.mem_singleton.mp hmem]
              exact ((eventId_eq_iff (hevent ▸ hne)).mpr hname).symm
        · rintro (hmem | ⟨rfl, hd, htakes⟩)
          · exact hserved.noticed (hsame ▸ hmem)
          · exact hall hok d hd htakes

theorem posts_recordRevised (o : SetOrder) {m t : Memory} (hm : m.Inv) {runId : String} {run event : Fields}
    {value : Value} (h : recordRevised o runId run value m = (.ok event, t)) :
    Posts o runId m t ∧ SameChoice runId m t := by
  rw [recordRevised_eq] at h
  obtain ⟨revised, -, h⟩ := check_bind_ok h
  have hposts := posts_recordEvent o hm runId revised (by rw [h]; rfl)
  rwa [h] at hposts

theorem posts_recordAll (o : SetOrder) {m t : Memory} (hm : m.Inv) {runId : String} {run : Fields} {values : List Value}
    {events : List Fields} (h : recordAll o runId run values m = (.ok events, t)) :
    Posts o runId m t ∧ SameChoice runId m t := by
  induction values generalizing m events with
  | nil =>
    cases h
    exact ⟨Posts.refl o runId t, rfl, fun _ _ => rfl⟩
  | cons value rest ih =>
    rw [recordAll_eq] at h
    obtain ⟨event, u, hfirst, h⟩ := bind_eq_ok h
    obtain ⟨others, v, hrest, h⟩ := bind_eq_ok h
    cases h
    have hu : u.Inv := by
      have hinv := inv_recordRevised hm o runId run value
      rwa [hfirst] at hinv
    obtain ⟨hposts, hchoice⟩ := posts_recordRevised o hm hfirst
    obtain ⟨hposts', hchoice'⟩ := ih hu hrest
    exact ⟨hposts.trans hposts' hchoice', hchoice.trans hchoice'⟩

/-- What was there before, without its run and its result, is what the events are put to. -/
theorem Posts.of_eq {o : SetOrder} {runId : String} {s s' t : Memory} (h : Posts o runId s' t)
    (hevents : s'.events = s.events) (hdeliveries : s'.webhookDeliveries = s.webhookDeliveries) :
    Posts o runId s t := by
  obtain ⟨new, hlog, hposts⟩ := h
  refine ⟨new, by rw [hlog, logOf, hevents, logOf], fun d id => ?_⟩
  rw [hposts, noticed, deliveriesOf, hdeliveries]
  rfl

theorem posts_mutateRunWithEvent (o : SetOrder) {m t : Memory} (hm : m.Inv) {runId : String} {updates event : Value}
    {expected : Option ℤ} {bump : Bool} {stored : Fields × Fields}
    (h : mutateRunWithEvent o runId updates event expected bump m = (.ok stored, t)) : Posts o runId m t := by
  rw [mutateRunWithEvent] at h
  obtain ⟨p, s, hcur, h⟩ := bind_eq_ok h
  rw [requireRevision_eq, Prod.mk.injEq] at hcur
  obtain ⟨hcur, rfl⟩ := hcur
  dsimp only at h
  obtain ⟨changes, -, h⟩ := check_bind_ok h
  rw [modify_bind] at h
  obtain ⟨event', u, hrec, h⟩ := bind_eq_ok h
  cases h
  have hrun := Dict.has_of_get (has_of_currentRevision hcur)
  exact (posts_recordRevised o (inv_putRun hm hrun _) hrec).1.of_eq rfl rfl

theorem posts_finalizeRunWithResult (o : SetOrder) {m t : Memory} (hm : m.Inv) {runId : String} {result updates : Value}
    {events : List Value} {expected : Option ℤ} {stored : Fields × Fields × List Fields}
    (h : finalizeRunWithResult o runId result updates events expected m = (.ok stored, t)) : Posts o runId m t := by
  rw [finalizeRunWithResult] at h
  obtain ⟨p, s, hcur, h⟩ := bind_eq_ok h
  rw [requireRevision_eq, Prod.mk.injEq] at hcur
  obtain ⟨hcur, rfl⟩ := hcur
  dsimp only at h
  obtain ⟨result', s', hstored, h⟩ := bind_eq_ok h
  obtain ⟨counters, rfl⟩ := storedResult_runs hstored
  rw [modify_bind] at h
  obtain ⟨changes, -, h⟩ := check_bind_ok h
  rw [modify_bind] at h
  obtain ⟨all, u, hrec, h⟩ := bind_eq_ok h
  cases h
  have hsame : Same m { m with idCounters := counters } := ⟨counters, rfl⟩
  have hinv : (putResult runId result' { m with idCounters := counters }).Inv :=
    (quiet_putResult ..).inv (hsame.quiet.inv hm)
  have hrun : (putResult runId result' { m with idCounters := counters }).runs.has runId :=
    Dict.has_of_get (has_of_currentRevision hcur)
  exact (posts_recordAll o (inv_putRun hinv hrun _) hrec).1.of_eq rfl rfl

theorem posts_method (o : SetOrder) {m t : Memory} (hm : m.Inv) {op : Op} {runId : String}
    (hrecords : op.records = some runId) (h : op.method o m = (.ok (), t)) : Posts o runId m t := by
  have hvoid : ∀ {α : Type} {p : StoreM α}, Op.method.void p m = (.ok (), t) → ∃ a, p m = (.ok a, t) := fun h => by
    obtain ⟨a, s, hp, h⟩ := bind_eq_ok h
    cases h
    exact ⟨a, hp⟩
  cases op with
  | appendEvent r value =>
    cases hrecords
    obtain ⟨event, hp⟩ := hvoid h
    have hrecord : recordEvent o runId value m = (.ok event, t) := hp
    have hposts := posts_recordEvent o hm runId value (by rw [hrecord]; rfl)
    rw [hrecord] at hposts
    exact hposts.1
  | mutateRunWithEvent r updates event expected bump =>
    cases hrecords
    obtain ⟨stored, hp⟩ := hvoid h
    exact posts_mutateRunWithEvent o hm hp
  | finalizeRunWithResult r result updates events expected =>
    cases hrecords
    obtain ⟨stored, hp⟩ := hvoid h
    exact posts_finalizeRunWithResult o hm hp
  | _ => cases hrecords

/-! ### Restarts -/

theorem map_written {f : Fields → Option Fields} {d d' : Dict String Fields} (h : d.written f = some d')
    {g : Fields → String} (hg : ∀ p ∈ d, ∀ w, f p.2 = some w → g w = g p.2) :
    (d'.map fun p => g p.2).Perm (d.map fun p => g p.2) := by
  obtain ⟨entries, hentries, rfl⟩ := Option.map_eq_some_iff.mp h
  refine ((Dict.perm_sortKeys entries).map _).trans (.of_eq ?_)
  clear h
  induction d generalizing entries with
  | nil =>
    cases hentries
    rfl
  | cons p d ih =>
    obtain ⟨w, hw, hentries⟩ := Option.bind_eq_some_iff.mp hentries
    obtain ⟨rest, hrest, rfl⟩ := Option.map_eq_some_iff.mp hentries
    rw [List.map_cons, List.map_cons, ih (fun q hq => hg q (List.mem_cons_of_mem p hq)) rest hrest,
      hg p List.mem_cons_self w hw]

theorem getD_encoded {fields encoded : Fields} (h : Value.encodeFields fields = some encoded) (k : String) :
    ((fields.get k).getD .null).encode = some ((encoded.get k).getD .null) := by
  have hget := get_encodeFields h k
  cases hold : fields.get k with
  | none =>
    rw [hold] at hget
    rw [← hget]
    rfl
  | some v =>
    rw [hold] at hget
    have hboth := Dict.get_written h k
    rw [hold] at hboth
    obtain ⟨w, hw, heq⟩ := Option.map_eq_some_iff.mp hboth.symm
    rw [hw]
    exact heq.symm

theorem truthful_restore {m snapshot : Memory} (hd : AllDated m) (h : Truthful m) (hser : serialise m = some snapshot) :
    Truthful (restore snapshot) := by
  have hitems : ∀ d, (deliveriesOf m d).written Value.encodeFields = some (deliveriesOf (restore snapshot) d) :=
    fun d => items_serialised hser (.webhookDeliveries d)
  have hname : ∀ d, ∀ p ∈ deliveriesOf m d, ∃ id, id ≠ "" ∧ p.2.get "event_id" = some (.str id) := fun d p hp => by
    obtain ⟨r, hr, event, he, ha⟩ := h.logged d p hp
    exact ⟨_, ((hd r hr).named event he).2, ha.named⟩
  have hencoded : ∀ {fields encoded : Fields} {k text : String}, Value.encodeFields fields = some encoded →
      fields.get k = some (.str text) → encoded.get k = some (.str text) := fun hfields hget => by
    rw [← get_encodeFields hfields, hget]
    rfl
  refine ⟨fun d => ?_, fun d p hp => ?_⟩
  · refine (map_written (hitems d) (g := eventId) fun p hp w hw => ?_).nodup_iff.mpr (h.distinct d)
    obtain ⟨id, hne, hget⟩ := hname d p hp
    rw [(eventId_eq_iff hne).mpr hget, (eventId_eq_iff hne).mpr (hencoded hw hget)]
  · obtain ⟨fields, hmem, hfields⟩ := Dict.mem_written (hitems d) hp
    obtain ⟨r, hr, event, he, hnamed, howned, htyped⟩ := h.logged d _ hmem
    obtain ⟨hruns, -, -⟩ := serialise_eq_some hser
    obtain ⟨i, hi, rfl⟩ := List.getElem_of_mem he
    have hall := forall₂_of_mapM (logOf_serialised hser r)
    have hi' : i < (logOf snapshot r).length := hall.length_eq ▸ hi
    have hevent : Value.encodeFields (logOf m r)[i] = some (logOf snapshot r)[i] := hall.get hi hi'
    obtain ⟨hid, hne⟩ := (hd r hr).named _ he
    refine ⟨r, ?_, (logOf snapshot r)[i], List.getElem_mem hi', ?_, hencoded hfields howned, ?_⟩
    · show snapshot.runs.has r
      rw [Dict.has_written hruns]
      exact hr
    · rw [(eventId_eq_iff hne).mpr (hencoded hevent hid)]
      exact hencoded hfields hnamed
    · have htype := get_encodeFields hfields "event_type"
      rw [htyped, Option.bind_some, getD_encoded hevent] at htype
      exact htype.symm

/-! ### Histories -/

/-- A step of a history whose calls leave the deliveries to the outbox and to the dispatcher. -/
def Sparing (s : SqliteStore) : Event → Prop
  | .call disk op => Proper s (.call disk op) ∧ Spares op
  | _ => True

theorem Sparing.proper {s : SqliteStore} {e : Event} (h : Sparing s e) : Proper s e := by
  cases e with
  | call disk op => exact h.1
  | _ => trivial

theorem truthful_empty : Truthful .empty := ⟨fun d => List.nodup_nil, fun d p hp => by cases hp⟩

/-- The invariant of the logs and their deliveries. -/
def Settled (s : SqliteStore) : Prop := Booked s ∧ s.Holds fun m => AllDated m ∧ Truthful m

theorem settled_step (o : SetOrder) {s : SqliteStore} (hs : Settled s) {e : Event} (he : Sparing s e) :
    Settled (s.step o e) := by
  obtain ⟨hbooked, hholds⟩ := hs
  have hinv := hbooked.orderly.memory.inv
  have hopened : ∀ {t : Memory}, (∀ d, deliveriesOf t d = deliveriesOf s.memory d) → t.runs = s.memory.runs →
      t.events = s.memory.events → t.idCounters = s.memory.idCounters → AllDated t ∧ Truthful t :=
    fun hdeliveries hruns hevents hcounters => by
      refine ⟨allDated_of_eq (fun r hr => by rwa [hruns] at hr) hevents ?_ hholds.memory.1,
        hholds.memory.2.grows hdeliveries fun r => (rests_of_eq hruns hevents).grows⟩
      rw [counterOf, ← hcounters]
      exact Nat.le_refl _
  refine ⟨hbooked.step o he.proper, hholds.step hinv ⟨allDated_empty, truthful_empty⟩
    (fun hm hser => ⟨dated_restore hm.1 hser, truthful_restore hm.1 hm.2 hser⟩) (fun disk op h hreset => ?_)
    (fun runId => hopened (fun _ => rfl) rfl rfl rfl)
    fun endpointId => hopened (deliveriesOf_open _ endpointId) rfl rfl rfl⟩
  subst h
  obtain ⟨hproper, hspares⟩ := he
  exact ⟨dated_method o hproper.brings hreset hinv hholds.memory.1,
    truthful_method o hspares hreset hinv hholds.memory.2⟩

theorem settled_run {o : SetOrder} {es : List Event} {s : SqliteStore}
    (h : Run (fun s e => some (SqliteStore.step o s e)) Sparing .init es s) : Settled s := by
  refine h.invariant (I := Settled) (fun s e u hs he hu => ?_) ⟨booked_init, ⟨allDated_empty, truthful_empty⟩, ?_⟩
  · cases hu
    exact settled_step o hs he
  · show AllDated (restore .empty) ∧ Truthful (restore .empty)
    rw [restore_eq inv_empty]
    exact ⟨allDated_empty, truthful_empty⟩

/-- A call that returns has made the changes of its method. -/
theorem memory_of_apply {o : SetOrder} {disk : Bool} {s t : SqliteStore} {op : Op} (h : op.apply o disk s = (.ok (), t))
    (hjob : ∀ r job, op ≠ .job r job) : op.method o s.memory = (.ok (), t.memory) := by
  have hmutation : ∀ {u}, durableMutation (op.method o) disk s = (.ok (), u) →
      op.method o s.memory = (.ok (), u.memory) :=
    fun h => by
      unfold durableMutation at h
      cases hmethod : op.method o s.memory with
      | mk r memory =>
        rw [hmethod] at h
        cases r with
        | error fault => cases h
        | ok _ =>
          dsimp only at h
          split at h
          · cases h
          · split at h
            · cases h
              rfl
            · cases h
  have hplain : op.apply o disk s = durableMutation (op.method o) disk s → op.method o s.memory = (.ok (), t.memory) :=
    fun heq => hmutation (heq ▸ h)
  cases op with
  | reset =>
    simp only [Op.apply] at h
    cases hm : durableMutation (Op.method o .reset) disk s with
    | mk r u =>
      rw [hm] at h
      cases r with
      | error fault => cases h
      | ok _ =>
        cases h
        have hmethod := hmutation hm
        exact hmethod
  | job r job => exact absurd rfl (hjob r job)
  | _ => exact hplain rfl

/-- The events that a call has put to the log of its run. -/
def appended (op : Op) (s t : SqliteStore) : List (String × Fields) :=
  match op.records with
  | none => []
  | some runId => ((logOf t.memory runId).drop (logOf s.memory runId).length).map fun event => (runId, event)

/-- What a call that returns adds to the deliveries. -/
theorem Settled.call {o : SetOrder} {s t : SqliteStore} (hs : Settled s) {disk : Bool} {op : Op} (hreset : op ≠ .reset)
    (hspares : Spares op) (happly : op.apply o disk s = (.ok (), t)) (d id : String) :
    id ∈ noticed t.memory d ↔ id ∈ noticed s.memory d ∨ ∃ r event, (r, event) ∈ appended op s t ∧ eventId event = id ∧
      d ∈ selected o t.memory r ∧ Takes t.memory (runOf t.memory r) event d := by
  cases hrecords : op.records with
  | none =>
    have hsame : noticed t.memory d = noticed s.memory d := by
      by_cases hjob : ∃ r job, op = .job r job
      · obtain ⟨r, job, rfl⟩ := hjob
        simp only [Op.apply] at happly
        split at happly
        · split at happly
          · cases happly
            rfl
          · cases happly
        · cases happly
      · have hmethod := memory_of_apply happly fun r job heq => hjob ⟨r, job, heq⟩
        have hundisturbed := (undisturbed_method o hspares hrecords hreset s.memory).noticed d
        rwa [hmethod] at hundisturbed
    simp [appended, hrecords, hsame]
  | some r =>
    have hjob : ∀ r job, op ≠ .job r job := by
      rintro r job rfl
      cases hrecords
    obtain ⟨new, hlog, hposts⟩ := posts_method o hs.1.orderly.memory.inv hrecords (memory_of_apply happly hjob)
    have hnew : (logOf t.memory r).drop (logOf s.memory r).length = new := by
      rw [hlog, List.drop_left]
    simp only [appended, hrecords, hnew, hposts, List.mem_map, Prod.mk.injEq]
    constructor
    · rintro (hmem | ⟨event, he, hid, hd, htakes⟩)
      · exact .inl hmem
      · exact .inr ⟨r, event, ⟨event, he, rfl, rfl⟩, hid, hd, htakes⟩
    · rintro (hmem | ⟨r', event, ⟨event', he, rfl, rfl⟩, hid, hd, htakes⟩)
      · exact .inl hmem
      · exact .inr ⟨event', he, hid, hd, htakes⟩

/-- In every state of every history an endpoint has at most one delivery of an event, and each delivery is of an
event that its run has logged. A call that returns makes deliveries of the events that it has logged, each
for the endpoints that its run names and that take it, and makes no others. -/
theorem outbox_exact {o : SetOrder} {es : List Event} {s : SqliteStore}
    (h : Run (fun s e => some (SqliteStore.step o s e)) Sparing .init es s) :
    (∀ d, (noticed s.memory d).Nodup) ∧
    (∀ d, ∀ p ∈ deliveriesOf s.memory d, ∃ r, s.memory.runs.has r ∧ ∃ event ∈ logOf s.memory r, Announces p.2 event r) ∧
    ∀ disk op t, op ≠ .reset → Spares op → op.apply o disk s = (.ok (), t) → ∀ d id, id ∈ noticed t.memory d ↔
      id ∈ noticed s.memory d ∨ ∃ r event, (r, event) ∈ appended op s t ∧ eventId event = id ∧
        d ∈ selected o t.memory r ∧ Takes t.memory (runOf t.memory r) event d := by
  have hsettled := settled_run h
  exact ⟨hsettled.2.memory.2.distinct, hsettled.2.memory.2.logged,
    fun disk op t hreset hspares happly d id => hsettled.call hreset hspares happly d id⟩

namespace Failing

/-- A run that names an endpoint and one that is not there. -/
def history : List Event :=
  [.call true (.createWebhookEndpoint (.dict [("webhook_endpoint_id", .str "w"), ("tenant_id", .str "t"),
      ("status", .str "ACTIVE"), ("event_types", .list [.str "run.failed.v1"])])),
    .call true (.createRun (.dict [("run_id", .str "r"), ("tenant_id", .str "t"),
      ("webhook_endpoint_ids", .list [.str "gone", .str "w"])]))]

def before : SqliteStore := history.foldl (SqliteStore.step inOrder) .init

def failed : Op := .appendEvent "r" (.dict [("type", .str "run.failed.v1")])

def after : SqliteStore := (failed.apply inOrder true before).2

theorem reached : Run (fun s e => some (SqliteStore.step inOrder s e)) Sparing .init history before :=
  .cons ⟨trivial, trivial⟩ rfl (.cons ⟨rfl, trivial⟩ rfl (.nil _))

theorem applied : failed.apply inOrder true before = (.ok (), after) := Prod.ext rfl rfl

end Failing

/-- The failure of the run is announced to its endpoint, for the reason that it takes failures. -/
theorem failure_announced :
    noticed Failing.after.memory "w" = [formatId "evt" 1] ∧ (noticed Failing.before.memory "w").Nodup ∧
      ∃ r event, (r, event) ∈ appended Failing.failed Failing.before Failing.after ∧ eventId event = formatId "evt" 1 ∧
        "w" ∈ selected inOrder Failing.after.memory r ∧
        Takes Failing.after.memory (runOf Failing.after.memory r) event "w" := by
  obtain ⟨hdistinct, -, hcalls⟩ := outbox_exact Failing.reached
  have hnoticed := hcalls true Failing.failed Failing.after (by simp [Failing.failed]) trivial Failing.applied "w"
    (formatId "evt" 1)
  exact ⟨by decide +kernel, hdistinct "w", (hnoticed.mp (by decide +kernel)).resolve_left (by decide +kernel)⟩

end AutomlApi.Outbox
