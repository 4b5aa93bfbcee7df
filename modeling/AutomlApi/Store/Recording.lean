import AutomlApi.Store.Deliveries

/-! Recording an event: it is refused before anything is written, or it is in the log
for good, whether its deliveries can be created or not. -/

namespace AutomlApi.Store

open Act

/-- An event with its id, the next one if it brought none. -/
def identified (event : Fields) (m : Memory) : Fields :=
  match event.get "event_id" with
  | none | some .null => event.set "event_id" (.str (formatId "evt" (counterOf m "evt" + 1)))
  | some _ => event

/-- The event that is stored for a fresh one. -/
def stamped (runId : String) (event : Fields) (m : Memory) : Fields :=
  let log := (m.events.get runId).getD []
  let run := (m.runs.get runId).getD []
  ((identified event m).set "seq" (.int (log.length + 1))).setDefault "run_revision" ((run.get "run_revision").getD (.int 1))

/-- The deliveries of a stored event can all be created. -/
def announceable (o : SetOrder) (runId : String) (event : Fields) (m : Memory) : Bool :=
  let run := (m.runs.get runId).getD []
  match selectedEndpointIds o run with
  | .error _ => false
  | .ok endpointIds => deliverable m run event endpointIds

/-- An event is accepted, and what it brings can be announced. -/
def recordable (o : SetOrder) (runId : String) (value : Value) (m : Memory) : Bool :=
  match prepareEvent runId value m with
  | .error _ => false
  | .ok (.existing _) => true
  | .ok (.fresh event) =>
    announceable o runId (stamped runId event m) (pushEvent runId (stamped runId event m) m)

/-- An event without an id takes the next one. -/
def drawsEvent (event : Fields) : ℕ :=
  match event.get "event_id" with
  | none | some .null => 1
  | some _ => 0

/-- The checks of an event ask for its run first. -/
theorem has_of_prepareEvent {runId : String} {value : Value} {m : Memory} {p : Prepared}
    (h : prepareEvent runId value m = .ok p) : m.runs.has runId := by
  unfold prepareEvent at h
  by_contra hrun
  rw [if_pos hrun] at h
  cases h

theorem withId_event (event : Fields) (m : Memory) :
    ∃ t, Same m t ∧ counterOf t "whd" = counterOf m "whd" ∧ counterOf t "evt" = counterOf m "evt" + drawsEvent event ∧
      withId "event_id" "evt" event m = (.ok (identified event m), t) := by
  have hcount : counterOf { m with idCounters := m.idCounters.set "evt" (counterOf m "evt" + 1) } "whd"
      = counterOf m "whd" := by
    simp [counterOf, Dict.get_set]
  have hdraw : counterOf { m with idCounters := m.idCounters.set "evt" (counterOf m "evt" + 1) } "evt"
      = counterOf m "evt" + 1 := by
    simp [counterOf]
  unfold withId identified drawsEvent
  cases event.get "event_id" with
  | none => exact ⟨_, ⟨_, rfl⟩, hcount, hdraw, rfl⟩
  | some v =>
    cases v with
    | null => exact ⟨_, ⟨_, rfl⟩, hcount, hdraw, rfl⟩
    | _ => exact ⟨m, .refl m, rfl, rfl, rfl⟩

theorem append_fresh {runId : String} {value : Value} {m : Memory} (hm : m.Inv) {event : Fields}
    (h : prepareEvent runId value m = .ok (.fresh event)) :
    ∃ t, Same m t ∧ counterOf t "whd" = counterOf m "whd" ∧ counterOf t "evt" = counterOf m "evt" + drawsEvent event ∧
      appendEventLocked runId value m
        = (.ok (stamped runId event m, true), pushEvent runId (stamped runId event m) t) := by
  obtain ⟨log, hlog⟩ := Option.isSome_iff_exists.mp (hm.events runId (has_of_prepareEvent h))
  obtain ⟨t, ht, hcount, hdraw, hid⟩ := withId_event event m
  refine ⟨t, ht, hcount, hdraw, ?_⟩
  rw [appendEventLocked, get_bind, h]
  dsimp only
  rw [hlog]
  dsimp only
  rw [bind_eq, hid]
  simp only [stamped, hlog, Option.getD_some]
  rfl

theorem append_existing {runId : String} {value : Value} {m : Memory} {event : Fields}
    (h : prepareEvent runId value m = .ok (.existing event)) :
    appendEventLocked runId value m = (.ok (event, false), m) := by
  rw [appendEventLocked, get_bind, h]
  rfl

theorem append_error {runId : String} {value : Value} {m : Memory} {fault : Fault}
    (h : prepareEvent runId value m = .error fault) :
    appendEventLocked runId value m = (.error fault, m) := by
  rw [appendEventLocked, get_bind, h]
  rfl

theorem nodup_selectedEndpointIds {o : SetOrder} {run : Fields} {ids : List String}
    (h : selectedEndpointIds o run = .ok ids) : ids.Nodup := by
  unfold selectedEndpointIds at h
  cases hset : pySet ((run.get "webhook_endpoint_ids").getD .null) with
  | error fault => rw [hset] at h; cases h
  | ok items => rw [hset] at h; cases h; exact (o.perm _).nodup_iff.mpr (List.nodup_dedup _)

theorem succeeds_announce (o : SetOrder) (runId : String) (event : Fields) {m t : Memory} (h : Same m t)
    (hcount : counterOf t "whd" = counterOf m "whd") :
    Succeeds (appendWebhookDeliveriesLocked o runId event) t ↔ announceable o runId event m = true := by
  obtain ⟨counters, rfl⟩ := h
  have hdeliver : ∀ ids, selectedEndpointIds o ((m.runs.get runId).getD []) = .ok ids →
      (Succeeds (deliver ((m.runs.get runId).getD []) event ids) { m with idCounters := counters } ↔
        deliverable m ((m.runs.get runId).getD []) event ids = true) := fun ids hids => by
    have hsame : SameEndpoints m { m with idCounters := counters } ids := ⟨rfl, fun _ _ => rfl⟩
    rw [succeeds_deliver _ event (nodup_selectedEndpointIds hids) hsame, hcount]
    rfl
  rw [appendWebhookDeliveriesLocked, succeeds_congr (get_bind _ _), succeeds_check_bind]
  unfold announceable
  constructor
  · rintro ⟨ids, hids, h⟩
    have := (hdeliver ids hids).mp h
    dsimp only at hids ⊢
    rwa [hids]
  · intro h
    cases hids : selectedEndpointIds o ((m.runs.get runId).getD []) with
    | error fault => simp [hids] at h
    | ok ids =>
      simp only [hids] at h
      exact ⟨ids, rfl, (hdeliver ids hids).mpr h⟩

/-- An event is recorded exactly when it is accepted and can be announced. -/
theorem succeeds_recordEvent (o : SetOrder) (runId : String) (value : Value) {m : Memory} (hm : m.Inv) :
    Succeeds (recordEvent o runId value) m ↔ recordable o runId value m = true := by
  unfold recordEvent recordable
  cases h : prepareEvent runId value m with
  | error fault => exact iff_of_false (not_succeeds_bind (append_error h)) (by simp)
  | ok p =>
    cases p with
    | existing event =>
      rw [succeeds_bind_of_eq (append_existing h)]
      exact iff_of_true (succeeds_pure event m) rfl
    | fresh event =>
      obtain ⟨t, ⟨counters, rfl⟩, hcount, -, happ⟩ := append_fresh hm h
      rw [succeeds_bind_of_eq happ]
      have hannounce := succeeds_announce o runId (stamped runId event m)
        (m := pushEvent runId (stamped runId event m) m)
        (t := pushEvent runId (stamped runId event m) { m with idCounters := counters }) ⟨counters, rfl⟩ hcount
      rw [← hannounce]
      exact succeeds_bind_pure

/-! ### What recording leaves -/

/-- Only deliveries are made. -/
def Posted (s t : Memory) : Prop :=
  ∃ counters deliveries, t = { s with idCounters := counters, webhookDeliveries := deliveries }

theorem Posted.refl (s : Memory) : Posted s s := ⟨_, _, rfl⟩

theorem Posted.trans (s t u : Memory) : Posted s t → Posted t u → Posted s u := by
  rintro ⟨_, _, rfl⟩ ⟨counters, deliveries, rfl⟩
  exact ⟨counters, deliveries, rfl⟩

theorem Posted.runs {s t : Memory} : Posted s t → t.runs = s.runs := by
  rintro ⟨_, _, rfl⟩
  rfl

theorem Posted.events {s t : Memory} : Posted s t → t.events = s.events := by
  rintro ⟨_, _, rfl⟩
  rfl

theorem Same.posted {s t : Memory} : Same s t → Posted s t := by
  rintro ⟨counters, rfl⟩
  exact ⟨counters, _, rfl⟩

theorem Posted.quiet {s t : Memory} : Posted s t → Quiet s t := by
  rintro ⟨_, _, rfl⟩
  exact ⟨fun _ h => h, fun _ h => h, rfl, rfl⟩

theorem posted_deliver (run event : Fields) (ids : List String) : Within Posted (deliver run event ids) := by
  induction ids with
  | nil => exact within_pure Posted.refl ()
  | cons id ids ih =>
    intro m
    rw [deliver_cons]
    cases subscribed m run event id with
    | error fault => exact .refl m
    | ok takes =>
      cases takes with
      | false => exact ih m
      | true =>
        have hopen : Posted m (openDeliveries id m) := ⟨_, _, rfl⟩
        refine Posted.trans _ (openDeliveries id m) _ hopen ?_
        dsimp only
        split
        · exact ih _
        · refine within_bind Posted.trans ?_ (fun _ => ih) _
          refine within_insertLocked Posted.refl Posted.trans Same.posted (fun m d => ?_) _ _ _ _ _
          exact ⟨_, _, rfl⟩

theorem posted_announce (o : SetOrder) (runId : String) (event : Fields) :
    Within Posted (appendWebhookDeliveriesLocked o runId event) := by
  refine within_bind Posted.trans (within_get Posted.refl) fun memory => ?_
  exact within_bind Posted.trans (within_check Posted.refl _) fun ids => posted_deliver _ event ids

/-- Recording refuses the event, finds it, or has it in the log for good. -/
theorem recordEvent_cases (o : SetOrder) (runId : String) (value : Value) {m : Memory} (hm : m.Inv) :
    (∃ fault, prepareEvent runId value m = .error fault ∧ recordEvent o runId value m = (.error fault, m)) ∨
    (∃ event, prepareEvent runId value m = .ok (.existing event) ∧
      recordEvent o runId value m = (.ok event, m)) ∨
    ∃ event t, prepareEvent runId value m = .ok (.fresh event) ∧ Same m t ∧
      Posted (pushEvent runId (stamped runId event m) t) (recordEvent o runId value m).2 := by
  unfold recordEvent
  cases h : prepareEvent runId value m with
  | error fault => exact .inl ⟨fault, rfl, by rw [bind_eq, append_error h]⟩
  | ok p =>
    cases p with
    | existing event => exact .inr (.inl ⟨event, rfl, by rw [bind_eq, append_existing h]; rfl⟩)
    | fresh event =>
      obtain ⟨t, ht, -, -, happ⟩ := append_fresh hm h
      refine .inr (.inr ⟨event, t, rfl, ht, ?_⟩)
      rw [bind_eq, happ]
      exact within_bind Posted.trans (posted_announce o runId _) (fun _ => within_pure Posted.refl _) _

theorem inv_pushEvent {m : Memory} (hm : m.Inv) {runId : String} (hrun : m.runs.has runId) (event : Fields) :
    (pushEvent runId event m).Inv := by
  have hruns : ∀ r, (pushEvent runId event m).runs.has r → m.runs.has r := fun r hr => by
    rw [pushEvent, Dict.has_set, Bool.or_eq_true, decide_eq_true_eq] at hr
    rcases hr with rfl | hr
    · exact hrun
    · exact hr
  refine ⟨fun r hr => hm.approvals r (hruns r hr), fun r hr => ?_, ?_⟩
  · rw [pushEvent, Dict.has_set, hm.events r (hruns r hr), Bool.or_true]
  · obtain ⟨log, hlog⟩ := Option.isSome_iff_exists.mp (hm.events runId hrun)
    have hids : m.eventIds.get runId = some (log.foldl (fun ids event => Dict.set ids (eventId event) event) []) := by
      rw [hm.index, indexed, Dict.get_mapValues, hlog]
      rfl
    simp only [pushEvent, hlog, hids, Option.getD_some]
    rw [indexed_set, List.foldl_append, ← hm.index]
    rfl

theorem inv_recordEvent (o : SetOrder) (runId : String) (value : Value) {m : Memory} (hm : m.Inv) :
    (recordEvent o runId value m).2.Inv := by
  rcases recordEvent_cases o runId value hm with ⟨_, -, h⟩ | ⟨_, -, h⟩ | ⟨event, t, h, ht, hpost⟩
  · rw [h]; exact hm
  · rw [h]; exact hm
  · obtain ⟨counters, rfl⟩ := ht
    exact hpost.quiet.inv (inv_pushEvent (Same.quiet ⟨counters, rfl⟩ |>.inv hm) (has_of_prepareEvent h) _)

/-- The revision that a run shows. -/
def revisionOf (runId : String) (m : Memory) : Option Value := (m.runs.get runId).bind (Dict.get · "run_revision")

/-- An event changes the number of the last event of its run, and nothing else of it. -/
theorem revisionOf_recordEvent (o : SetOrder) (runId : String) (value : Value) {m : Memory} (hm : m.Inv) :
    revisionOf runId (recordEvent o runId value m).2 = revisionOf runId m := by
  rcases recordEvent_cases o runId value hm with ⟨_, -, h⟩ | ⟨_, -, h⟩ | ⟨event, t, h, ⟨_, rfl⟩, hpost⟩
  · rw [h]
  · rw [h]
  · obtain ⟨run, hrun⟩ := Option.isSome_iff_exists.mp (has_of_prepareEvent h)
    simp only [revisionOf, hpost.runs, pushEvent, hrun, Dict.get_set_self, Option.getD_some, Option.bind_some]
    rw [Dict.get_set, if_neg (by decide)]

/-- An event that is refused leaves the memory alone; one that cannot be announced is
in the log. -/
theorem recordEvent_error {o : SetOrder} {runId : String} {value : Value} {m m' : Memory} (hm : m.Inv)
    {fault : Fault} (h : recordEvent o runId value m = (.error fault, m')) :
    (prepareEvent runId value m = .error fault ∧ m' = m) ∨
      ((prepareEvent runId value m).isOk = true ∧ m'.events ≠ m.events) := by
  rcases recordEvent_cases o runId value hm with ⟨f, hf, h'⟩ | ⟨_, -, h'⟩ | ⟨event, t, hp, ⟨_, rfl⟩, hpost⟩
  · rw [h] at h'; cases h'; exact .inl ⟨hf, rfl⟩
  · rw [h] at h'; cases h'
  · refine .inr ⟨by rw [hp]; rfl, fun heq => ?_⟩
    rw [h] at hpost
    have hlog : m'.events = m.events.set runId (((m.events.get runId).getD []) ++ [stamped runId event m]) :=
      hpost.events
    have hget := congrArg (Dict.get · runId) (hlog.symm.trans heq)
    simp only [Dict.get_set_self] at hget
    rw [← hget] at hget
    simp at hget

end AutomlApi.Store
