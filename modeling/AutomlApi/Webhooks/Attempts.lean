import AutomlApi.Webhooks.Dispatcher

/-! What a step does to a delivery. Only the attempt in progress, a redelivery, and the
recovery at the start write to one that is there; no step takes one away. -/

namespace AutomlApi.Webhooks

variable {settings : Settings}

/-! ### Updates -/

namespace Service

theorem get_updateDelivery (m : Service) (endpointId id : ℕ) (patch : Delivery → Delivery) (k : ℕ) :
    (m.updateDelivery endpointId id patch).deliveries.get k =
      if k = id then (m.deliveries.get k).map fun d => if d.webhookEndpointId = endpointId then patch d else d
      else m.deliveries.get k := by
  unfold updateDelivery delivery
  cases hget : m.deliveries.get id with
  | none =>
    by_cases hk : k = id
    · simp [hk, hget]
    · simp [hk]
  | some d =>
    by_cases hd : d.webhookEndpointId = endpointId
    · simp only [Option.filter_some, hd, decide_true, ↓reduceIte]
      rw [Dict.get_set]
      by_cases hk : k = id
      · rw [if_pos hk, if_pos hk, hk, hget, Option.map_some, if_pos hd]
      · rw [if_neg hk, if_neg hk]
    · simp only [Option.filter_some, hd, decide_false, Bool.false_eq_true, ↓reduceIte]
      by_cases hk : k = id
      · rw [if_pos hk, hk, hget, Option.map_some, if_neg hd]
      · rw [if_neg hk]

@[simp] theorem deliveries_updateEndpoint (m : Service) (endpointId : ℕ) (patch : Endpoint → Endpoint) :
    (m.updateEndpoint endpointId patch).deliveries = m.deliveries := by
  unfold updateEndpoint
  split <;> rfl

@[simp] theorem endpoints_updateDelivery (m : Service) (endpointId id : ℕ) (patch : Delivery → Delivery) :
    (m.updateDelivery endpointId id patch).endpoints = m.endpoints := by
  unfold updateDelivery
  split <;> rfl

@[simp] theorem runs_updateDelivery (m : Service) (endpointId id : ℕ) (patch : Delivery → Delivery) :
    (m.updateDelivery endpointId id patch).runs = m.runs := by
  unfold updateDelivery
  split <;> rfl

@[simp] theorem runs_updateEndpoint (m : Service) (endpointId : ℕ) (patch : Endpoint → Endpoint) :
    (m.updateEndpoint endpointId patch).runs = m.runs := by
  unfold updateEndpoint
  split <;> rfl

theorem counter_updateDelivery (m : Service) (endpointId id : ℕ) (patch : Delivery → Delivery) :
    (m.updateDelivery endpointId id patch).endpointCounter = m.endpointCounter := by
  unfold updateDelivery
  split <;> rfl

theorem delivery_eq_some {m : Service} {endpointId id : ℕ} {d : Delivery} :
    m.delivery endpointId id = some d ↔ m.deliveries.get id = some d ∧ d.webhookEndpointId = endpointId := by
  simp [delivery, Option.filter_eq_some_iff]

/-- The deliveries are numbered, each once, up to the counter. -/
structure Numbered (m : Service) : Prop where
  nodup : (m.deliveries.map Prod.fst).Nodup
  le : ∀ id d, m.deliveries.get id = some d → id ≤ m.deliveryCounter

theorem Numbered.fresh {m : Service} (h : m.Numbered) : m.deliveries.get (m.deliveryCounter + 1) = none := by
  cases hget : m.deliveries.get (m.deliveryCounter + 1) with
  | none => rfl
  | some d => exact absurd (h.le _ d hget) (by omega)

theorem Numbered.of_deliveries {m m' : Service} (h : m.Numbered) (hd : m'.deliveries = m.deliveries)
    (hc : m'.deliveryCounter = m.deliveryCounter) : m'.Numbered :=
  ⟨hd ▸ h.nodup, fun id d hget => hc ▸ h.le id d (hd ▸ hget)⟩

theorem Numbered.updateEndpoint {m : Service} (h : m.Numbered) (endpointId : ℕ) (patch : Endpoint → Endpoint) :
    (m.updateEndpoint endpointId patch).Numbered := by
  refine h.of_deliveries (deliveries_updateEndpoint ..) ?_
  unfold Service.updateEndpoint
  split <;> rfl

theorem Numbered.updateDelivery {m : Service} (h : m.Numbered) (endpointId id : ℕ) (patch : Delivery → Delivery) :
    (m.updateDelivery endpointId id patch).Numbered := by
  unfold Service.updateDelivery
  split
  · exact h
  · rename_i d hd
    refine ⟨Dict.nodup_set h.nodup .., fun k d' hget => ?_⟩
    rw [Dict.get_set] at hget
    split at hget
    · rename_i hk
      rw [hk]
      exact h.le id d (delivery_eq_some.mp hd).1
    · exact h.le k d' hget

end Service

/-! ### The deliveries of an event -/

/-- The delivery that an event gets at an endpoint. -/
def newDelivery (runId : String) (run : Run) (event : Event) (endpointId : ℕ) : Delivery where
  tenantId := run.tenantId
  webhookEndpointId := endpointId
  eventId := event.eventId
  eventType := event.type
  runId := runId
  nextAttemptAt := some event.occurredAt.iso
  createdAt := event.occurredAt.iso

namespace Service

theorem deliverTo_cases (runId : String) (run : Run) (event : Event) (m : Service) (endpointId : ℕ) :
    m.deliverTo runId run event endpointId = m ∨
      (m.endpoints.get endpointId).isSome ∧ m.deliverTo runId run event endpointId =
        { m with
          deliveries := m.deliveries.set (m.deliveryCounter + 1) (newDelivery runId run event endpointId)
          deliveryCounter := m.deliveryCounter + 1 } := by
  unfold deliverTo
  split
  · exact .inl rfl
  · rename_i endpoint hget
    split
    · exact .inl rfl
    · split
      · exact .inl rfl
      · split
        · exact .inl rfl
        · exact .inr ⟨by rw [hget]; rfl, rfl⟩

/-- An event leaves the deliveries that are there, and adds some of its own. -/
theorem deliver_all (runId : String) (run : Run) (event : Event) {m : Service} (h : m.Numbered)
    (endpointIds : List ℕ) :
    let m' := endpointIds.foldl (deliverTo runId run event) m
    m'.Numbered ∧ m'.endpoints = m.endpoints ∧ m'.runs = m.runs ∧ m'.endpointCounter = m.endpointCounter ∧
      (∀ id d, m.deliveries.get id = some d → m'.deliveries.get id = some d) ∧
      ∀ id d, m'.deliveries.get id = some d → m.deliveries.get id = some d ∨
        m.deliveries.get id = none ∧ ∃ endpointId, (m.endpoints.get endpointId).isSome ∧
          d = newDelivery runId run event endpointId := by
  induction endpointIds generalizing m with
  | nil => exact ⟨h, rfl, rfl, rfl, fun _ _ h => h, fun _ _ h => .inl h⟩
  | cons endpointId endpointIds ih =>
    rw [List.foldl_cons]
    rcases deliverTo_cases runId run event m endpointId with heq | ⟨hthere, heq⟩
    · rw [heq]
      exact ih h
    · rw [heq]
      have hset : ∀ k, (m.deliveries.set (m.deliveryCounter + 1) (newDelivery runId run event endpointId)).get k =
          if k = m.deliveryCounter + 1 then some (newDelivery runId run event endpointId) else m.deliveries.get k :=
        fun k => Dict.get_set ..
      obtain ⟨hnumbered, hendpoints, hruns, hcounter, hkept, hnew⟩ := ih
        (m := { m with
          deliveries := m.deliveries.set (m.deliveryCounter + 1) (newDelivery runId run event endpointId)
          deliveryCounter := m.deliveryCounter + 1 })
        ⟨Dict.nodup_set h.nodup .., fun k d hget => by
          rw [hset] at hget
          split at hget
          · exact le_of_eq ‹_›
          · exact (h.le k d hget).trans (Nat.le_succ _)⟩
      refine ⟨hnumbered, hendpoints, hruns, hcounter, fun k d hget => hkept k d ?_, fun k d hget => ?_⟩
      · rw [hset, if_neg]
        · exact hget
        · rintro rfl
          exact absurd (h.fresh ▸ hget) (by simp)
      · rcases hnew k d hget with hold | ⟨hold, hnew⟩
        · rw [hset] at hold
          split at hold
          · rename_i hk
            exact .inr ⟨hk ▸ h.fresh, endpointId, hthere, (Option.some.inj hold).symm⟩
          · exact .inl hold
        · rw [hset] at hold
          split at hold
          · cases hold
          · exact .inr ⟨hold, hnew⟩

end Service

/-! ### The choice of a delivery -/

/-- What is chosen comes after no unfinished delivery of its run. -/
theorem due_eq_some {now : String} {blockedRuns : List String} {entries : List (ℕ × Delivery)} {x : ℕ × Delivery}
    (h : due now blockedRuns entries = some x) :
    x.2.status.unfinished = true ∧ x.2.status ≠ .delivering ∧ x.2.runId ∉ blockedRuns ∧
      ∃ before after, entries = before ++ x :: after ∧
        ∀ y ∈ before, y.2.runId = x.2.runId → y.2.status.unfinished = false := by
  have hcons : ∀ {y : ℕ × Delivery} {rest : List (ℕ × Delivery)} {blocked : List String},
      (y.2.runId = x.2.runId → y.2.status.unfinished = false) →
      (x.2.status.unfinished = true ∧ x.2.status ≠ .delivering ∧ x.2.runId ∉ blocked ∧
        ∃ before after, rest = before ++ x :: after ∧
          ∀ y ∈ before, y.2.runId = x.2.runId → y.2.status.unfinished = false) →
      ∃ before after, y :: rest = before ++ x :: after ∧
        ∀ y ∈ before, y.2.runId = x.2.runId → y.2.status.unfinished = false := by
    rintro y rest blocked hy ⟨-, -, -, before, after, rfl, hbefore⟩
    exact ⟨y :: before, after, rfl, List.forall_mem_cons.mpr ⟨hy, hbefore⟩⟩
  fun_induction due now blockedRuns entries with
  | case1 => cases h
  | case2 blockedRuns n delivery rest hfinished ih =>
    have hx := ih h
    exact ⟨hx.1, hx.2.1, hx.2.2.1, hcons (fun _ => by simpa using hfinished) hx⟩
  | case3 blockedRuns n delivery rest hunfinished hblocked ih =>
    have hx := ih h
    exact ⟨hx.1, hx.2.1, hx.2.2.1, hcons (fun hrun => absurd (hrun ▸ hblocked) hx.2.2.1) hx⟩
  | case4 blockedRuns n delivery rest hunfinished hblocked hdelivering ih
  | case5 blockedRuns n delivery rest hunfinished hblocked hdelivering hlater ih =>
    have hx := ih h
    obtain ⟨hne, hnot⟩ := not_or.mp (fun hmem => hx.2.2.1 (List.mem_cons.mpr hmem))
    exact ⟨hx.1, hx.2.1, hnot, hcons (fun hrun => absurd hrun.symm hne) hx⟩
  | case6 blockedRuns n delivery rest hunfinished hblocked hdelivering hlater =>
    cases h
    have hstatus : delivery.status.unfinished = true := by simpa using hunfinished
    exact ⟨hstatus, hdelivering, hblocked, [], rest, rfl, fun y hy => absurd hy List.not_mem_nil⟩

/-- `_dispatch_one` chooses at an active endpoint. -/
theorem dispatchOne_eq_some {now : String} {m : Service} {picked : Picked} (h : dispatchOne now m = some picked) :
    (picked.endpointId, picked.endpoint) ∈ m.endpoints ∧ picked.endpoint.status = .active ∧
      due now [] ((m.deliveriesOf picked.endpointId).insertionSort Before) = some (picked.deliveryId, picked.delivery) := by
  obtain ⟨⟨endpointId, endpoint⟩, hmem, heq⟩ := List.exists_of_findSome?_eq_some h
  dsimp only at heq
  split at heq
  · cases heq
  · rename_i hactive
    obtain ⟨⟨id, d⟩, hdue, hpicked⟩ := Option.map_eq_some_iff.mp heq
    subst hpicked
    dsimp only
    exact ⟨(List.mem_insertionSort Named).mp hmem, not_not.mp hactive, hdue⟩

theorem mem_of_due {now : String} {m : Service} {picked : Picked} (h : dispatchOne now m = some picked) :
    (picked.deliveryId, picked.delivery) ∈ m.deliveries ∧ picked.delivery.webhookEndpointId = picked.endpointId := by
  obtain ⟨-, -, -, before, after, heq, -⟩ := due_eq_some (dispatchOne_eq_some h).2.2
  have hmem : (picked.deliveryId, picked.delivery) ∈ (m.deliveriesOf picked.endpointId).insertionSort Before := by
    rw [heq]
    exact List.mem_append_right _ List.mem_cons_self
  obtain ⟨hmem, hat⟩ := List.mem_filter.mp ((List.mem_insertionSort Before).mp hmem)
  exact ⟨hmem, of_decide_eq_true hat⟩

/-! ### The end of an attempt -/

/-- What a failed attempt makes of its delivery. -/
def Delivery.failed (settings : Settings) (clock : Clock) (stored : Stored) (id : ℕ) (fault : Fault) (d : Delivery) :
    Delivery :=
  if ¬ stored.ended then d
  else if d.isExhausted settings clock then Delivery.exhaust clock id d fault d
  else Delivery.retry clock id d fault d

theorem get_retryOrExhaust (settings : Settings) {m : Service} {endpointId id : ℕ} {d : Delivery} (h : m.delivery endpointId id = some d)
    (clock : Clock) (stored : Stored) (fault : Fault) (k : ℕ) :
    (retryOrExhaust settings clock stored endpointId id d fault m).deliveries.get k =
      if k = id then some (d.failed settings clock stored id fault) else m.deliveries.get k := by
  obtain ⟨hget, hat⟩ := Service.delivery_eq_some.mp h
  have hpatched : ∀ patch : Delivery → Delivery, (m.updateDelivery endpointId id patch).deliveries.get k =
      if k = id then some (patch d) else m.deliveries.get k := fun patch => by
    rw [Service.get_updateDelivery]
    split
    · rename_i hk
      rw [hk, hget, Option.map_some, if_pos hat]
    · rfl
  unfold retryOrExhaust Delivery.failed
  split
  · split
    · rename_i hk
      rw [hk, hget]
    · rfl
  · split
    · dsimp only
      split
      · rw [Service.deliveries_updateEndpoint]
        exact hpatched _
      · exact hpatched _
    · exact hpatched _

theorem numbered_retryOrExhaust {m : Service} (h : m.Numbered) (endpointId id : ℕ) (d : Delivery) (clock : Clock)
    (stored : Stored) (fault : Fault) : (retryOrExhaust settings clock stored endpointId id d fault m).Numbered := by
  unfold retryOrExhaust
  split
  · exact h
  · split
    · dsimp only
      split
      · exact (h.updateDelivery ..).updateEndpoint ..
      · exact h.updateDelivery ..
    · exact h.updateDelivery ..

theorem runs_retryOrExhaust (m : Service) (endpointId id : ℕ) (d : Delivery) (clock : Clock) (stored : Stored)
    (fault : Fault) : (retryOrExhaust settings clock stored endpointId id d fault m).runs = m.runs := by
  unfold retryOrExhaust
  split
  · rfl
  · dsimp only
    split
    · split <;> simp
    · simp

/-! ### The recovery -/

theorem get_recover (now : String) (ids : List (ℕ × ℕ)) {m : Service} {k : ℕ} {d : Delivery}
    (h : m.deliveries.get k = some d) :
    (m.recover now ids).deliveries.get k =
      some (if (d.webhookEndpointId, k) ∈ ids then d.interrupt now else d) := by
  induction ids generalizing m d with
  | nil => exact h
  | cons id ids ih =>
    have hstep := Service.get_updateDelivery m id.1 id.2 (Delivery.interrupt now) k
    rw [h, Option.map_some] at hstep
    by_cases hid : (d.webhookEndpointId, k) = id
    · subst hid
      rw [if_pos rfl, if_pos rfl] at hstep
      have hrest := ih hstep
      rw [if_pos List.mem_cons_self]
      show (Service.recover now _ ids).deliveries.get k = _
      rw [hrest]
      split <;> rfl
    · have hsame : (m.updateDelivery id.1 id.2 (Delivery.interrupt now)).deliveries.get k = some d := by
        rw [hstep]
        split
        · rename_i hk
          rw [if_neg fun hat => hid (Prod.ext hat hk)]
        · rfl
      have hrest := ih hsame
      simp only [List.mem_cons, hid, false_or]
      exact hrest

theorem recover_frame (now : String) (ids : List (ℕ × ℕ)) (m : Service) (h : m.Numbered) :
    (m.recover now ids).Numbered ∧ (m.recover now ids).endpoints = m.endpoints ∧ (m.recover now ids).runs = m.runs ∧
      (∀ k, m.deliveries.get k = none → (m.recover now ids).deliveries.get k = none) ∧
      (m.recover now ids).endpointCounter = m.endpointCounter := by
  induction ids generalizing m with
  | nil => exact ⟨h, rfl, rfl, fun _ h => h, rfl⟩
  | cons id ids ih =>
    obtain ⟨hnumbered, hendpoints, hruns, hnone, hcounter⟩ := ih _ (h.updateDelivery id.1 id.2 (Delivery.interrupt now))
    refine ⟨hnumbered, hendpoints.trans (by simp), hruns.trans (by simp), fun k hk => hnone k ?_,
      hcounter.trans (Service.counter_updateDelivery ..)⟩
    rw [Service.get_updateDelivery, hk]
    simp

/-- Every delivery that is at an endpoint and under way is come to. -/
theorem mem_interrupted {m : Service} (hm : m.Numbered) {id : ℕ} {d : Delivery} (h : m.deliveries.get id = some d)
    (hat : (m.endpoints.get d.webhookEndpointId).isSome) :
    (d.webhookEndpointId, id) ∈ m.interrupted ↔ d.status = .delivering := by
  obtain ⟨endpoint, hendpoint⟩ := Option.isSome_iff_exists.mp hat
  unfold Service.interrupted
  simp only [List.mem_flatMap, List.mem_map, List.mem_filter, Service.deliveriesOf, decide_eq_true_eq]
  constructor
  · rintro ⟨⟨e, endpoint'⟩, -, ⟨id', d'⟩, ⟨⟨hmem, -⟩, hstatus⟩, heq⟩
    have hd : m.deliveries.get id' = some d' := Dict.get_of_mem hm.nodup hmem
    rw [show id' = id from (Prod.mk.inj heq).2, h] at hd
    exact Option.some.inj hd ▸ hstatus
  · intro hstatus
    exact ⟨(d.webhookEndpointId, endpoint), Dict.mem_of_get hendpoint, (id, d), ⟨⟨Dict.mem_of_get h, rfl⟩, hstatus⟩, rfl⟩

/-! ### What a step does -/

def Action.stored : Action → Stored
  | .dispatch _ stored | .resolved _ _ stored | .response _ _ stored => stored
  | _ => {}

/-- What an action of the dispatcher reads of the clock. -/
def Action.clock : Action → Clock
  | .dispatch clock _ | .resolved _ clock _ | .response _ clock _ => clock
  | _ => { now := "" }

/-- The delivery of which an action starts an attempt. -/
def System.starts (s : System) : Action → Option ℕ
  | .dispatch clock stored =>
    match s.stage with
    | .idle => if stored.begun then (dispatchOne clock.now s.service).map (·.deliveryId) else none
    | _ => none
  | _ => none

/-- An attempt under way: its delivery is as it was begun, and its request is about the
event of the delivery and signed with the secret that the endpoint had. -/
structure Flight (settings : Settings) (m : Service) (a : Attempt) : Prop where
  there : m.delivery a.endpointId a.deliveryId = some a.delivery
  delivering : a.delivery.status = .delivering
  sends : a.request.envelope.deliveryId = a.deliveryId ∧ a.request.envelope.webhookEndpointId = a.endpointId ∧
    a.request.envelope.attempt = a.delivery.attemptCount
  own : ∃ run, m.runs.get a.delivery.runId = some run ∧ a.request.envelope.event ∈ run.events ∧
    a.request.envelope.event.eventId = a.delivery.eventId
  signed : settings.signature a.endpoint.signingSecret a.request.timestamp a.request.envelope = some a.request.signature

structure Inv (settings : Settings) (s : System) : Prop where
  numbered : s.service.Numbered
  placed : ∀ id d, s.service.deliveries.get id = some d → (s.service.endpoints.get d.webhookEndpointId).isSome
  flight : ∀ a, s.stage.attempt? = some a → Flight settings s.service a

/-- What a step, with the stage after it, does to a delivery. -/
inductive Moved (settings : Settings) (s : System) (id : ℕ) (d : Delivery) : Action → Stage → Delivery → Prop
  | stays {e : Action} {stage : Stage} (hflying : ∀ a, s.stage.attempt? = some a → a.deliveryId = id →
      stage.attempt? = some a ∨ stage = .stopped) (hstopped : s.stage = .stopped → d.status = .delivering →
      stage = .stopped) (hstarts : s.starts e ≠ some id) : Moved settings s id d e stage d
  | begins {clock : Clock} {stored : Stored} {picked : Picked} {request : Request} (hidle : s.stage = .idle)
      (hpicked : dispatchOne clock.now s.service = some picked) (hid : picked.deliveryId = id)
      (hd : picked.delivery = d) (hbegun : stored.begun) (hfails : ¬ s.fails settings (.dispatch clock stored)) :
      Moved settings s id d (.dispatch clock stored)
        (.resolving ⟨picked.endpointId, picked.endpoint, id, Delivery.begin clock d d, request⟩) (Delivery.begin clock d d)
  | spoils {clock : Clock} {stored : Stored} {picked : Picked} {fault : Fault} (hidle : s.stage = .idle)
      (hpicked : dispatchOne clock.now s.service = some picked) (hid : picked.deliveryId = id)
      (hd : picked.delivery = d) (hbegun : stored.begun) (hfails : s.fails settings (.dispatch clock stored)) :
      Moved settings s id d (.dispatch clock stored) .idle
        ((Delivery.begin clock d d).failed settings clock stored id fault)
  | fails {e : Action} {a : Attempt} {fault : Fault} (hflying : s.stage.attempt? = some a)
      (hid : a.deliveryId = id) (hd : a.delivery = d) (hfails : s.fails settings e) :
      Moved settings s id d e .idle (d.failed settings e.clock e.stored id fault)
  | succeeds {a : Attempt} {clock : Clock} {stored : Stored} {status : ℕ} (hsending : s.stage = .sending a)
      (hid : a.deliveryId = id) (hd : a.delivery = d) (hstatus : 200 ≤ status ∧ status < 300)
      (hstored : stored.succeeded) :
      Moved settings s id d (.response (.ok status) clock stored) .idle (d.succeed clock status)
  | cancelled {a : Attempt} {now : String} (hflying : s.stage.attempt? = some a) (hid : a.deliveryId = id)
      (hd : a.delivery = d) : Moved settings s id d (.stop true now) .stopped (d.interrupt now)
  | recovered {failsAt : Option ℕ} {now : String} {stage : Stage} (hstopped : s.stage = .stopped)
      (hdelivering : d.status = .delivering) : Moved settings s id d (.start failsAt now) stage (d.interrupt now)
  | redelivered {endpointId : ℕ} {expired : Bool} {now : String} (hredeliverable : Service.Redeliverable expired d.status) :
      Moved settings s id d (.redeliver endpointId id expired now) s.stage (d.redeliver now)

/-- The events of a run stay, in their order. -/
def EventsKept (m m' : Service) : Prop :=
  ∀ runId run, m.runs.get runId = some run → ∃ run', m'.runs.get runId = some run' ∧ run.events <+: run'.events

/-- What an action does to the events: they stay, and an event that is appended is new to
its run. -/
structure EventsMoved (m : Service) (e : Action) (m' : Service) : Prop where
  kept : EventsKept m m'
  grown : ∀ runId run', m'.runs.get runId = some run' →
    (∃ run, m.runs.get runId = some run ∧ run'.events = run.events) ∨ run'.events = [] ∨
      ∃ endpointIds event run, e = .append runId endpointIds event ∧ m.runs.get runId = some run ∧
        (∀ other ∈ run.events, other.eventId ≠ event.eventId) ∧ run'.events = run.events ++ [event.numbered run]

/-- What an action does to the deliveries. -/
structure Taken (settings : Settings) (s : System) (e : Action) (t : System) : Prop where
  inv : Inv settings t
  moved : ∀ id d, s.service.deliveries.get id = some d →
    ∃ d', t.service.deliveries.get id = some d' ∧ Moved settings s id d e t.stage d'
  new : ∀ id d, t.service.deliveries.get id = some d → s.service.deliveries.get id = none →
    ∃ runId run endpointIds event endpointId, e = .append runId endpointIds event ∧ s.service.runs.get runId = some run ∧
      (∀ other ∈ run.events, other.eventId ≠ event.eventId) ∧ d = newDelivery runId run event endpointId ∧
      ∃ run', t.service.runs.get runId = some run' ∧ event.numbered run ∈ run'.events
  events : EventsMoved s.service e t.service

theorem EventsKept.of_eq {m m' : Service} (h : m'.runs = m.runs) : EventsKept m m' :=
  fun _ run hrun => ⟨run, h ▸ hrun, List.prefix_refl _⟩

theorem EventsMoved.of_eq {m m' : Service} {e : Action} (h : m'.runs = m.runs) : EventsMoved m e m' :=
  ⟨.of_eq h, fun _ run' hrun' => .inl ⟨run', h ▸ hrun', rfl⟩⟩

theorem Flight.mono {m m' : Service} {a : Attempt} (h : Flight settings m a)
    (hthere : m'.delivery a.endpointId a.deliveryId = some a.delivery) (hevents : EventsKept m m') :
    Flight settings m' a := by
  obtain ⟨run, hrun, hevent, hid⟩ := h.own
  obtain ⟨run', hrun', hevents⟩ := hevents _ run hrun
  exact ⟨hthere, h.delivering, h.sends, ⟨run', hrun', hevents.subset hevent, hid⟩, h.signed⟩

/-- An action that does not write to the deliveries, and at most ends the process. -/
theorem taken_of_still {s t : System} {e : Action} (hs : Inv settings s)
    (hdeliveries : t.service.deliveries = s.service.deliveries)
    (hcounter : t.service.deliveryCounter = s.service.deliveryCounter)
    (hendpoints : ∀ id, (s.service.endpoints.get id).isSome → (t.service.endpoints.get id).isSome)
    (hevents : EventsMoved s.service e t.service)
    (hgoes : ∀ a, s.stage.attempt? = some a → t.stage.attempt? = some a ∨ t.stage = .stopped)
    (hcomes : ∀ a, t.stage.attempt? = some a → s.stage.attempt? = some a)
    (hstopped : s.stage = .stopped → t.stage = .stopped) (hstarts : s.starts e = none) : Taken settings s e t where
  inv :=
    ⟨hs.numbered.of_deliveries hdeliveries hcounter, fun id d hget => hendpoints _ (hs.placed id d (hdeliveries ▸ hget)),
      fun a ha => (hs.flight a (hcomes a ha)).mono
        (by rw [Service.delivery, hdeliveries]; exact (hs.flight a (hcomes a ha)).there) hevents.kept⟩
  moved id d hget := ⟨d, hdeliveries ▸ hget, .stays (fun a ha _ => hgoes a ha) (fun h _ => hstopped h) (hstarts ▸ nofun)⟩
  new id d hget hnone := by
    rw [hdeliveries, hnone] at hget
    cases hget
  events := hevents

/-- An action that writes to one delivery. -/
theorem taken_of_set {s t : System} {e : Action} {id : ℕ} {d d' : Delivery} (hs : Inv settings s)
    (hget : s.service.deliveries.get id = some d) (hsame : d'.webhookEndpointId = d.webhookEndpointId)
    (hset : ∀ k, t.service.deliveries.get k = if k = id then some d' else s.service.deliveries.get k)
    (hnumbered : t.service.Numbered)
    (hendpoints : ∀ id, (s.service.endpoints.get id).isSome → (t.service.endpoints.get id).isSome)
    (hevents : EventsMoved s.service e t.service)
    (hothers : ∀ a, s.stage.attempt? = some a → a.deliveryId ≠ id → t.stage.attempt? = some a ∨ t.stage = .stopped)
    (hstopped : s.stage = .stopped → t.stage = .stopped) (hstarts : ∀ k ≠ id, s.starts e ≠ some k)
    (hflight : ∀ a, t.stage.attempt? = some a → Flight settings t.service a)
    (hmoved : Moved settings s id d e t.stage d') : Taken settings s e t where
  inv := by
    refine ⟨hnumbered, fun k d'' hk => ?_, hflight⟩
    rw [hset] at hk
    split at hk
    · cases hk
      exact hendpoints _ (hsame ▸ hs.placed id d hget)
    · exact hendpoints _ (hs.placed k d'' hk)
  moved k d'' hk := by
    by_cases heq : k = id
    · subst heq
      rw [hget] at hk
      cases hk
      exact ⟨d', by rw [hset, if_pos rfl], hmoved⟩
    · refine ⟨d'', by rw [hset, if_neg heq, hk],
        .stays (fun a ha hid => hothers a ha ?_) (fun h _ => hstopped h) (hstarts k heq)⟩
      rw [hid]
      exact heq
  new k d'' hk hnone := by
    rw [hset] at hk
    split at hk
    · rename_i heq
      rw [heq, hget] at hnone
      cases hnone
    · rw [hnone] at hk
      cases hk
  events := hevents

theorem isSome_updateEndpoint {m : Service} {id : ℕ} (h : (m.endpoints.get id).isSome) (endpointId : ℕ)
    (patch : Endpoint → Endpoint) : ((m.updateEndpoint endpointId patch).endpoints.get id).isSome := by
  unfold Service.updateEndpoint
  split
  · exact h
  · dsimp only
    rw [Dict.get_set]
    split
    · rfl
    · exact h

/-- What a request that is made says. -/
theorem prepare_eq_ok {clock : Clock} {m : Service} {picked : Picked} {d : Delivery} {request : Request}
    (h : prepare settings clock m picked d = .ok request) :
    request.envelope.deliveryId = picked.deliveryId ∧ request.envelope.webhookEndpointId = picked.endpointId ∧
      request.envelope.attempt = d.attemptCount ∧
      (∃ run, m.runs.get d.runId = some run ∧ request.envelope.event ∈ run.events ∧
        request.envelope.event.eventId = d.eventId) ∧
      settings.signature picked.endpoint.signingSecret request.timestamp request.envelope = some request.signature := by
  unfold prepare at h
  cases hrun : m.runs.get d.runId with
  | none => rw [hrun] at h; cases h
  | some run =>
    rw [hrun] at h
    dsimp only at h
    cases hevent : run.events.find? (·.eventId = d.eventId) with
    | none => rw [hevent] at h; cases h
    | some event =>
      rw [hevent] at h
      dsimp only at h
      cases hcallback : stageCallbackForEvent settings d.runId event run.phase with
      | error fault => rw [hcallback] at h; cases h
      | ok callback =>
        rw [hcallback] at h
        dsimp only at h
        split at h
        · cases h
        · rename_i signature hsignature
          cases h
          have hid := List.find?_some hevent
          exact ⟨rfl, rfl, rfl, ⟨run, rfl, List.mem_of_find?_eq_some hevent, of_decide_eq_true hid⟩, hsignature⟩

theorem failed_at (clock : Clock) (stored : Stored) (id : ℕ) (fault : Fault) (d : Delivery) :
    (d.failed settings clock stored id fault).webhookEndpointId = d.webhookEndpointId := by
  unfold Delivery.failed
  split
  · rfl
  · split <;> rfl

theorem isSome_retryOrExhaust {m : Service} {k : ℕ} (h : (m.endpoints.get k).isSome) (clock : Clock) (stored : Stored)
    (endpointId id : ℕ) (d : Delivery) (fault : Fault) :
    ((retryOrExhaust settings clock stored endpointId id d fault m).endpoints.get k).isSome := by
  unfold retryOrExhaust
  split
  · exact h
  · dsimp only
    split
    · split
      · exact isSome_updateEndpoint (by rwa [Service.endpoints_updateDelivery]) ..
      · rwa [Service.endpoints_updateDelivery]
    · rwa [Service.endpoints_updateDelivery]

theorem grounded {stage : Stage} (h : stage = .idle ∨ stage = .stopped) (a : Attempt) : stage.attempt? ≠ some a := by
  rcases h with rfl | rfl <;> exact (Option.some_ne_none a).symm

theorem starts_of_ne_idle {s : System} (h : s.stage ≠ .idle) (e : Action) : s.starts e = none := by
  cases e with
  | dispatch clock stored =>
    unfold System.starts
    dsimp only
    split
    · exact absurd ‹_› h
    · rfl
  | _ => rfl

theorem starts_of_flying {s : System} {a : Attempt} (h : s.stage.attempt? = some a) (e : Action) : s.starts e = none :=
  starts_of_ne_idle (fun hidle => by rw [hidle] at h; cases h) e

/-- The end of an attempt that has failed, whatever raised. -/
theorem taken_fail {s : System} {e : Action} {a : Attempt} (hs : Inv settings s) (ha : s.stage.attempt? = some a)
    (hfails : s.fails settings e) (fault : Fault) : Taken settings s e (fail settings e.clock e.stored a fault s.service) := by
  have hflight := hs.flight a ha
  obtain ⟨hget, hat⟩ := Service.delivery_eq_some.mp hflight.there
  refine taken_of_set hs hget (failed_at e.clock e.stored a.deliveryId fault a.delivery)
    (get_retryOrExhaust settings hflight.there e.clock e.stored fault) (numbered_retryOrExhaust hs.numbered ..)
    (fun id h => isSome_retryOrExhaust h ..) (.of_eq (runs_retryOrExhaust ..)) (fun b hb hne => ?_) (fun h => ?_)
    (fun k _ => starts_of_flying ha e ▸ nofun) (fun b hb => absurd hb (grounded (.inl rfl) b)) (.fails ha rfl rfl hfails)
  · rw [ha] at hb
    cases hb
    exact absurd rfl hne
  · rw [h] at ha
    cases ha

theorem taken_deliver {s : System} (hs : Inv settings s) (hidle : s.stage = .idle) {clock : Clock} {stored : Stored}
    {picked : Picked} (hpicked : dispatchOne clock.now s.service = some picked) :
    Taken settings s (.dispatch clock stored) (deliver settings clock stored picked s.service) := by
  have hnone : ∀ a, s.stage.attempt? ≠ some a := grounded (.inl hidle)
  have hrunning : s.stage ≠ .stopped := fun h => by
    rw [hidle] at h
    cases h
  obtain ⟨hmem, hat⟩ := mem_of_due hpicked
  have hget : s.service.deliveries.get picked.deliveryId = some picked.delivery :=
    Dict.get_of_mem hs.numbered.nodup hmem
  unfold deliver
  split
  · exact taken_of_still hs rfl rfl (fun _ h => h) (.of_eq rfl) (fun a ha => absurd ha (hnone a))
      (fun a ha => absurd ha (grounded (.inl rfl) a)) (fun h => absurd h hrunning)
      (by simp_all [System.starts])
  · rename_i hbegun
    have hbegun : stored.begun = true := by simpa using hbegun
    have hstarts : ∀ k ≠ picked.deliveryId, s.starts (.dispatch clock stored) ≠ some k := fun k hk h => by
      simp only [System.starts, hidle, hbegun, hpicked, if_true, Option.map_some, Option.some.injEq] at h
      exact hk h.symm
    set m := s.service.updateDelivery picked.endpointId picked.deliveryId (Delivery.begin clock picked.delivery) with hm
    have hset : ∀ k, m.deliveries.get k =
        if k = picked.deliveryId then some (Delivery.begin clock picked.delivery picked.delivery)
        else s.service.deliveries.get k := fun k => by
      rw [hm, Service.get_updateDelivery]
      split
      · rename_i hk
        rw [hk, hget, Option.map_some, if_pos hat]
      · rfl
    have hthere : m.delivery picked.endpointId picked.deliveryId =
        some (Delivery.begin clock picked.delivery picked.delivery) :=
      Service.delivery_eq_some.mpr ⟨by rw [hset, if_pos rfl], hat⟩
    have hnumbered : m.Numbered := hs.numbered.updateDelivery ..
    have hendpoints : m.endpoints = s.service.endpoints := Service.endpoints_updateDelivery ..
    have hruns : m.runs = s.service.runs := Service.runs_updateDelivery ..
    dsimp only
    rw [hthere]
    dsimp only
    split
    · rename_i request hprepare
      refine taken_of_set hs hget
        (show (Delivery.begin clock picked.delivery picked.delivery).webhookEndpointId = _ from rfl) hset hnumbered
        (fun k h => hendpoints ▸ h) (.of_eq hruns)
        (fun a ha => absurd ha (hnone a)) (fun h => absurd h hrunning) hstarts (fun a ha => ?_)
        (.begins hidle hpicked rfl rfl hbegun ?_)
      · cases ha
        obtain ⟨hid, hend, hattempt, hown, hsigned⟩ := prepare_eq_ok hprepare
        exact ⟨hthere, rfl, ⟨hid, hend, hattempt⟩, hown, hsigned⟩
      · unfold System.fails
        simp only [hidle, hpicked, ← hm, hthere, hprepare, hbegun, Option.any_some]
        exact Bool.false_ne_true
    · rename_i fault hprepare
      refine taken_of_set hs hget
        (failed_at clock stored picked.deliveryId fault (Delivery.begin clock picked.delivery picked.delivery))
        (fun k => ?_)
        (numbered_retryOrExhaust hnumbered ..) (fun k h => isSome_retryOrExhaust (hendpoints ▸ h) ..)
        (.of_eq ((runs_retryOrExhaust ..).trans hruns)) (fun a ha => absurd ha (hnone a))
        (fun h => absurd h hrunning) hstarts (fun a ha => absurd ha (grounded (.inl rfl) a))
        (.spoils hidle hpicked rfl rfl hbegun ?_)
      · rw [get_retryOrExhaust settings hthere, hset]
        split <;> rfl
      · unfold System.fails
        simp only [hidle, hpicked, ← hm, hthere, hprepare, hbegun, Option.any_some]
        rfl

theorem taken_conclude {s : System} (hs : Inv settings s) {a : Attempt} (ha : s.stage = .sending a) {clock : Clock}
    {stored : Stored} (outcome : Except Fault ℕ) :
    Taken settings s (.response outcome clock stored) (conclude settings clock stored a outcome s.service) := by
  have hflying : s.stage.attempt? = some a := by rw [ha]; rfl
  unfold conclude
  cases outcome with
  | error fault => exact taken_fail (e := .response (.error fault) clock stored) hs hflying rfl fault
  | ok status =>
    have hfail : (200 ≤ status ∧ status < 300 → ¬ stored.succeeded) → ∀ fault,
        Taken settings s (.response (.ok status) clock stored) (fail settings clock stored a fault s.service) :=
      fun hfails fault => by
        refine taken_fail (e := .response (.ok status) clock stored) hs hflying ?_ fault
        by_cases h : 200 ≤ status ∧ status < 300
        · simp [System.fails, hfails h]
        · simp only [System.fails, h, decide_false, Bool.not_false, Bool.true_or]
    dsimp only
    split
    · rename_i hstatus
      split
      · rename_i hsucceeded
        have hflight := hs.flight a hflying
        obtain ⟨hget, hat⟩ := Service.delivery_eq_some.mp hflight.there
        refine taken_of_set hs hget (show (a.delivery.succeed clock status).webhookEndpointId = _ from rfl) (fun k => ?_)
          (hs.numbered.updateDelivery ..) (fun k h => by rwa [Service.endpoints_updateDelivery])
          (.of_eq (Service.runs_updateDelivery ..)) (fun b hb hne => ?_) (fun h => ?_)
          (fun _ _ => nofun) (fun b hb => absurd hb (grounded (.inl rfl) b)) (.succeeds ha rfl rfl hstatus hsucceeded)
        · rw [Service.get_updateDelivery]
          split
          · rename_i hk
            rw [hk, hget, Option.map_some, if_pos hat]
          · rfl
        · rw [hflying] at hb
          cases hb
          exact absurd rfl hne
        · rw [h] at ha
          cases ha
      · rename_i hfailed
        exact hfail (fun _ => hfailed) storeFault
    · rename_i hstatus
      exact hfail (fun h => absurd h hstatus) _

theorem taken_cancel {s : System} (hs : Inv settings s) {a : Attempt} (ha : s.stage.attempt? = some a) (stored : Bool)
    (now : String) : Taken settings s (.stop stored now) (cancel stored now a s.service) := by
  have hflight := hs.flight a ha
  obtain ⟨hget, hat⟩ := Service.delivery_eq_some.mp hflight.there
  unfold cancel
  cases stored with
  | false =>
    exact taken_of_still hs rfl rfl (fun _ h => h) (.of_eq rfl) (fun _ _ => .inr rfl)
      (fun b hb => absurd hb (grounded (.inr rfl) b)) (fun _ => rfl) rfl
  | true =>
    refine taken_of_set hs hget (show (a.delivery.interrupt now).webhookEndpointId = _ from rfl) (fun k => ?_)
      (hs.numbered.updateDelivery ..) (fun k h => by rwa [if_pos rfl, Service.endpoints_updateDelivery])
      (.of_eq (Service.runs_updateDelivery ..)) (fun _ _ _ => .inr rfl) (fun _ => rfl)
      (fun _ _ => nofun) (fun b hb => absurd hb (grounded (.inr rfl) b)) (.cancelled ha rfl rfl)
    rw [if_pos rfl, Service.get_updateDelivery]
    split
    · rename_i hk
      rw [hk, hget, Option.map_some, if_pos hat]
    · rfl

/-- The recovery; after a whole one no delivery is under way. -/
theorem taken_start {s : System} (hs : Inv settings s) (hstopped : s.stage = .stopped) (now : String)
    (failsAt : Option ℕ) (ids : List (ℕ × ℕ)) (hids : ids ⊆ s.service.interrupted) (stage : Stage)
    (hstage : stage = .idle ∧ ids = s.service.interrupted ∨ stage = .stopped) :
    Taken settings s (.start failsAt now) ⟨s.service.recover now ids, stage⟩ := by
  have hgrounded : stage = .idle ∨ stage = .stopped := hstage.imp_left And.left
  obtain ⟨hnumbered, hendpoints, hruns, hnone, -⟩ := recover_frame now ids s.service hs.numbered
  have hget : ∀ {id d}, s.service.deliveries.get id = some d → (s.service.recover now ids).deliveries.get id =
      some (if (d.webhookEndpointId, id) ∈ ids then d.interrupt now else d) := get_recover now ids
  refine ⟨⟨hnumbered, fun id d' h => ?_, fun a ha => absurd ha (grounded hgrounded a)⟩, fun id d h => ?_,
    fun id d h hno => ?_, .of_eq hruns⟩
  · dsimp only at h ⊢
    rw [hendpoints]
    cases hold : s.service.deliveries.get id with
    | none =>
      rw [hnone id hold] at h
      cases h
    | some d =>
      rw [hget hold] at h
      cases h
      split
      · exact hs.placed id d hold
      · exact hs.placed id d hold
  · refine ⟨_, hget h, ?_⟩
    have hiff := mem_interrupted hs.numbered h (hs.placed id d h)
    split
    · rename_i hmem
      exact .recovered hstopped (hiff.mp (hids hmem))
    · rename_i hmem
      refine .stays (fun a ha => absurd ha (grounded (.inr hstopped) a)) (fun _ hdelivering => ?_) (by simp [System.starts])
      rcases hstage with ⟨-, rfl⟩ | hstage
      · exact absurd (hiff.mpr hdelivering) hmem
      · exact hstage
  · dsimp only at h
    rw [hnone id hno] at h
    cases h

theorem taken_redeliver {s : System} (hs : Inv settings s) (endpointId id : ℕ) (expired : Bool) (now : String) :
    Taken settings s (.redeliver endpointId id expired now) (s.act (s.service.redeliver endpointId id expired now)) := by
  have hstill : Taken settings s (.redeliver endpointId id expired now) (s.act s.service) :=
    taken_of_still hs rfl rfl (fun _ h => h) (.of_eq rfl) (fun _ h => .inl h) (fun _ h => h) (fun h => h) rfl
  unfold Service.redeliver
  split
  · exact hstill
  · split
    · exact hstill
    · cases hthere : s.service.delivery endpointId id with
      | none =>
        unfold Service.updateDelivery
        rw [hthere]
        exact hstill
      | some d =>
        obtain ⟨hget, hat⟩ := Service.delivery_eq_some.mp hthere
        set patch : Delivery → Delivery := fun d =>
          if Service.Redeliverable expired d.status then d.redeliver now else d with hpatch
        have hset : ∀ k, (s.service.updateDelivery endpointId id patch).deliveries.get k =
            if k = id then some (patch d) else s.service.deliveries.get k := fun k => by
          rw [Service.get_updateDelivery]
          split
          · rename_i hk
            rw [hk, hget, Option.map_some, if_pos hat]
          · rfl
        have hsame : (patch d).webhookEndpointId = d.webhookEndpointId := by
          dsimp only [patch]
          split <;> rfl
        have hnot : ∀ a, s.stage.attempt? = some a → a.deliveryId = id →
            ¬ Service.Redeliverable expired d.status := fun a ha hid => by
          have hflight := hs.flight a ha
          have hget' := (Service.delivery_eq_some.mp hflight.there).1
          rw [hid, hget] at hget'
          cases hget'
          rw [hflight.delivering]
          exact Bool.false_ne_true
        refine taken_of_set hs hget hsame hset (hs.numbered.updateDelivery ..)
          (fun k h => by
            show ((s.service.updateDelivery endpointId id patch).endpoints.get k).isSome
            rwa [Service.endpoints_updateDelivery])
          (.of_eq (Service.runs_updateDelivery ..)) (fun a ha _ => .inl ha) (fun h => h) (fun _ _ => by simp [System.starts]) (fun a ha => ?_) ?_
        · refine (hs.flight a ha).mono (Service.delivery_eq_some.mpr ?_) (.of_eq (Service.runs_updateDelivery ..))
          obtain ⟨hget', hat'⟩ := Service.delivery_eq_some.mp (hs.flight a ha).there
          refine ⟨(hset _).trans ?_, hat'⟩
          split
          · rename_i hk
            rw [hk, hget] at hget'
            cases hget'
            exact congrArg some (if_neg (hnot a ha hk))
          · exact hget'
        · by_cases hredeliverable : Service.Redeliverable expired d.status
          · rw [hpatch]
            dsimp only
            rw [if_pos hredeliverable]
            exact .redelivered hredeliverable
          · rw [hpatch]
            dsimp only
            rw [if_neg hredeliverable]
            exact .stays (fun a ha _ => .inl ha) (fun h _ => h) (by simp [System.starts])

theorem taken_append {s : System} (hs : Inv settings s) {runId : String} {endpointIds : List ℕ} {event : Event}
    {m : Service} (h : s.service.appendEvent runId endpointIds event = some m) :
    Taken settings s (.append runId endpointIds event) (s.act m) := by
  unfold Service.appendEvent at h
  cases hrun : s.service.runs.get runId with
  | none => rw [hrun] at h; cases h
  | some run =>
    rw [hrun] at h
    dsimp only at h
    split at h
    · cases h
    · split at h
      · cases h
        exact taken_of_still hs rfl rfl (fun _ h => h) (.of_eq rfl) (fun _ h => .inl h) (fun _ h => h) (fun h => h) rfl
      · rename_i hfresh
        cases h
        have hfresh : ∀ other ∈ run.events, other.eventId ≠ event.eventId := by simpa using hfresh
        set logged : Service :=
          { s.service with runs := s.service.runs.set runId { run with events := run.events ++ [event.numbered run] } }
          with hlogged
        obtain ⟨hn, hendpoints, hruns, -, hkept, hnew⟩ := Service.deliver_all runId run
          (event.numbered run) (m := logged) (hs.numbered.of_deliveries rfl rfl) endpointIds
        have hget' : ∀ r, (endpointIds.foldl (Service.deliverTo runId run (event.numbered run)) logged).runs.get r =
            if r = runId then some { run with events := run.events ++ [event.numbered run] }
            else s.service.runs.get r := fun r => by
          rw [hruns, hlogged]
          exact Dict.get_set ..
        have hevents : EventsMoved s.service (.append runId endpointIds event)
            (endpointIds.foldl (Service.deliverTo runId run (event.numbered run)) logged) := by
          refine ⟨fun r run' hrun' => ?_, fun r run' hrun' => ?_⟩
          · rw [hget']
            split
            · rename_i hr
              rw [hr, hrun] at hrun'
              cases hrun'
              exact ⟨_, rfl, List.prefix_append ..⟩
            · exact ⟨run', hrun', List.prefix_refl _⟩
          · rw [hget'] at hrun'
            split at hrun'
            · rename_i hr
              cases hrun'
              exact .inr (.inr ⟨endpointIds, event, run, by rw [hr], hr ▸ hrun, hfresh, rfl⟩)
            · exact .inl ⟨run', hrun', rfl⟩
        refine ⟨⟨hn, fun id d hget => ?_, fun a ha => ?_⟩, fun id d hget => ?_, fun id d hget hnone => ?_, hevents⟩
        · dsimp only [System.act] at hget ⊢
          rw [hendpoints]
          rcases hnew id d hget with hold | ⟨-, endpointId, hthere, rfl⟩
          · exact hs.placed id d hold
          · exact hthere
        · have hflight := hs.flight a ha
          obtain ⟨hget, hat⟩ := Service.delivery_eq_some.mp hflight.there
          exact hflight.mono (Service.delivery_eq_some.mpr ⟨hkept _ _ hget, hat⟩) hevents.kept
        · exact ⟨d, hkept id d hget, .stays (fun a ha _ => .inl ha) (fun h _ => h) (by simp [System.starts])⟩
        · rcases hnew id d hget with hold | ⟨-, endpointId, -, hd⟩
          · rw [show s.service.deliveries.get id = some d from hold] at hnone
            cases hnone
          · refine ⟨runId, run, endpointIds, event, endpointId, rfl, hrun, hfresh, hd, _, (hget' runId).trans (if_pos rfl), ?_⟩
            exact List.mem_append_right _ List.mem_cons_self

/-- An action keeps the invariant, and moves each delivery in one of the ways above. -/
theorem taken {s t : System} (hs : Inv settings s) {e : Action} (h : s.take settings e = some t) :
    Taken settings s e t := by
  have hquiet : ∀ {m : Service}, m.deliveries = s.service.deliveries → m.deliveryCounter = s.service.deliveryCounter →
      (∀ id, (s.service.endpoints.get id).isSome → (m.endpoints.get id).isSome) → EventsMoved s.service e m →
      s.starts e = none → Taken settings s e (s.act m) := fun hdeliveries hcounter hendpoints hevents hstarts =>
    taken_of_still hs hdeliveries hcounter hendpoints hevents (fun _ h => .inl h) (fun _ h => h) (fun h => h) hstarts
  have hendpoint : ∀ endpointId patch, s.starts e = none →
      Taken settings s e (s.act (s.service.updateEndpoint endpointId patch)) :=
    fun endpointId patch hstarts => by
      refine hquiet (Service.deliveries_updateEndpoint ..) ?_ (fun _ h => isSome_updateEndpoint h ..)
        (.of_eq (Service.runs_updateEndpoint ..)) hstarts
      unfold Service.updateEndpoint
      split <;> rfl
  cases e with
  | createEndpoint endpoint =>
    cases h
    refine hquiet rfl rfl (fun id h => ?_) (.of_eq rfl) rfl
    unfold Service.createEndpoint
    dsimp only
    rw [Dict.get_set]
    split
    · rfl
    · exact h
  | createRun runId run =>
    unfold System.take at h
    dsimp only at h
    split at h
    · cases h
    · rename_i hfresh
      cases h
      refine hquiet rfl rfl (fun _ h => h) ⟨fun r run' hrun' => ⟨run', ?_, List.prefix_refl _⟩, fun r run' hrun' => ?_⟩ rfl
      · dsimp only
        rw [Dict.get_set, if_neg]
        · exact hrun'
        · rintro rfl
          exact hfresh (Dict.has_of_get hrun')
      · dsimp only at hrun'
        rw [Dict.get_set] at hrun'
        split at hrun'
        · cases hrun'
          exact .inr (.inl rfl)
        · exact .inl ⟨run', hrun', rfl⟩
  | enterPhase runId phase =>
    obtain ⟨run, hrun, rfl⟩ := Option.map_eq_some_iff.mp h
    refine hquiet rfl rfl (fun _ h => h) ⟨fun r run' hrun' => ?_, fun r run' hrun' => ?_⟩ rfl
    · dsimp only
      rw [Dict.get_set]
      split
      · rename_i hr
        rw [hr, hrun] at hrun'
        cases hrun'
        exact ⟨_, rfl, List.prefix_refl _⟩
      · exact ⟨run', hrun', List.prefix_refl _⟩
    · dsimp only at hrun'
      rw [Dict.get_set] at hrun'
      split at hrun'
      · rename_i hr
        cases hrun'
        exact .inl ⟨run, hr ▸ hrun, rfl⟩
      · exact .inl ⟨run', hrun', rfl⟩
  | append runId endpointIds event =>
    obtain ⟨m, hm, rfl⟩ := Option.map_eq_some_iff.mp h
    exact taken_append hs hm
  | delete endpointId now => cases h; exact hendpoint _ _ rfl
  | rotate endpointId secret validUntil => cases h; exact hendpoint _ _ rfl
  | enable endpointId => cases h; exact hendpoint _ _ rfl
  | redeliver endpointId id expired now => cases h; exact taken_redeliver hs ..
  | start failsAt now =>
    unfold System.take at h
    dsimp only at h
    split at h
    · rename_i hstopped
      cases h
      exact taken_start hs hstopped now none _ (fun _ h => h) .idle (.inl ⟨rfl, rfl⟩)
    · rename_i n hstopped
      cases h
      exact taken_start hs hstopped now (some n) _ (List.take_subset n _) .stopped (.inr rfl)
    · cases h
  | dispatch clock stored =>
    unfold System.take at h
    dsimp only at h
    split at h
    · rename_i hidle
      cases hpicked : dispatchOne clock.now s.service with
      | none =>
        rw [hpicked] at h
        cases h
        exact hquiet rfl rfl (fun _ h => h) (.of_eq rfl) (by simp [System.starts, hidle, hpicked])
      | some picked =>
        rw [hpicked] at h
        cases h
        exact taken_deliver hs hidle hpicked
    · cases h
  | resolved fault clock stored =>
    unfold System.take at h
    dsimp only at h
    split at h
    · rename_i a ha
      have hflying : s.stage.attempt? = some a := by rw [ha]; rfl
      cases fault with
      | none =>
        cases h
        exact taken_of_still hs rfl rfl (fun _ h => h) (.of_eq rfl) (fun b hb => .inl (hflying.symm.trans hb))
          (fun b hb => hflying.trans hb) (fun h => by rw [h] at ha; cases ha) rfl
      | some fault =>
        cases h
        exact taken_fail (e := .resolved (some fault) clock stored) hs hflying rfl fault
    · cases h
  | response outcome clock stored =>
    unfold System.take at h
    dsimp only at h
    split at h
    · rename_i a ha
      cases h
      exact taken_conclude hs ha outcome
    · cases h
  | stop stored now =>
    cases ha : s.stage.attempt? with
    | none =>
      unfold System.take at h
      rw [ha] at h
      cases h
      exact taken_of_still hs rfl rfl (fun _ h => h) (.of_eq rfl) (fun _ _ => .inr rfl)
        (fun b hb => absurd hb (grounded (.inr rfl) b)) (fun _ => rfl) rfl
    | some a =>
      unfold System.take at h
      rw [ha] at h
      cases h
      exact taken_cancel hs ha ..

end AutomlApi.Webhooks
