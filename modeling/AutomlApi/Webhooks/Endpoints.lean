import AutomlApi.Webhooks.Lifecycle

/-! The status of a webhook endpoint. A request disables or enables it without looking at
the attempts; the end of an attempt that is exhausted pauses it without looking at its
status. -/

namespace AutomlApi.Webhooks

variable {settings : Settings} {s t u : System}

def statusOf (m : Service) (id : ℕ) : Option EndpointStatus := (m.endpoints.get id).map (·.status)

/-! ### Writes -/

theorem get_updateEndpoint (m : Service) (endpointId : ℕ) (patch : Endpoint → Endpoint) (id : ℕ) :
    (m.updateEndpoint endpointId patch).endpoints.get id =
      if id = endpointId then (m.endpoints.get id).map patch else m.endpoints.get id := by
  unfold Service.updateEndpoint
  cases hget : m.endpoints.get endpointId with
  | none =>
    by_cases hid : id = endpointId
    · simp [hid, hget]
    · simp [hid]
  | some endpoint =>
    dsimp only
    rw [Dict.get_set]
    by_cases hid : id = endpointId
    · rw [if_pos hid, if_pos hid, hid, hget, Option.map_some]
    · rw [if_neg hid, if_neg hid]

/-- An update of an endpoint acts on its status alone, as far as statuses go. -/
theorem statusOf_updateEndpoint (m : Service) (endpointId : ℕ) {patch : Endpoint → Endpoint}
    {f : EndpointStatus → EndpointStatus} (h : ∀ endpoint, (patch endpoint).status = f endpoint.status) (id : ℕ) :
    statusOf (m.updateEndpoint endpointId patch) id =
      (statusOf m id).map fun status => if endpointId = id then f status else status := by
  unfold statusOf
  rw [get_updateEndpoint]
  by_cases hid : id = endpointId
  · subst hid
    simp only [↓reduceIte, Option.map_map]
    exact congrArg (fun g => (m.endpoints.get id).map g) (funext h)
  · rw [if_neg hid, Option.map_map]
    exact congrArg (fun g => (m.endpoints.get id).map g) (funext fun _ => (if_neg (Ne.symm hid)).symm)

theorem counter_updateEndpoint (m : Service) (endpointId : ℕ) (patch : Endpoint → Endpoint) :
    (m.updateEndpoint endpointId patch).endpointCounter = m.endpointCounter := by
  unfold Service.updateEndpoint
  split <;> rfl

namespace System

/-- The endpoint that an action pauses: the one of an attempt that it exhausts. -/
def pauses (settings : Settings) (s : System) (e : Action) : Option ℕ :=
  if s.fails settings e ∧ e.stored.ended ∧ e.stored.paused then
    match s.stage.attempt? with
    | some a => if a.delivery.isExhausted settings e.clock then some a.endpointId else none
    | none =>
      (dispatchOne e.clock.now s.service).bind fun picked =>
        if (Delivery.begin e.clock picked.delivery picked.delivery).isExhausted settings e.clock then
          some picked.endpointId
        else none
  else none

/-- The status that an action leaves an endpoint in. -/
def statusAfter (settings : Settings) (s : System) (e : Action) (id : ℕ) (status : EndpointStatus) : EndpointStatus :=
  match e with
  | .delete endpointId _ => if endpointId = id then .disabled else status
  | .enable endpointId => if endpointId = id then .active else status
  | _ => if s.pauses settings e = some id then .pausedDeliveryFailures else status

/-- The endpoints are numbered up to their counter. -/
def Counted (m : Service) : Prop := ∀ id, (statusOf m id).isSome → id ≤ m.endpointCounter

end System

/-! ### The end of an attempt -/

theorem statusOf_retryOrExhaust (m : Service) (clock : Clock) (stored : Stored) (endpointId id : ℕ) (d : Delivery)
    (fault : Fault) (k : ℕ) :
    statusOf (retryOrExhaust settings clock stored endpointId id d fault m) k = (statusOf m k).map fun status =>
      if (stored.ended ∧ stored.paused) ∧ d.isExhausted settings clock ∧ endpointId = k then .pausedDeliveryFailures
      else status := by
  have hsame : ∀ m' : Service, m'.endpoints = m.endpoints →
      ¬ ((stored.ended ∧ stored.paused) ∧ d.isExhausted settings clock ∧ endpointId = k) →
      statusOf m' k = (statusOf m k).map fun status =>
        if (stored.ended ∧ stored.paused) ∧ d.isExhausted settings clock ∧ endpointId = k then .pausedDeliveryFailures
        else status := fun m' hm' hno => by
    simp only [if_neg hno, Option.map_id_fun', id_eq, statusOf, hm']
  unfold retryOrExhaust
  split
  · rename_i hended
    exact hsame m rfl fun h => hended h.1.1
  · rename_i hended
    split
    · rename_i hexhausted
      dsimp only
      split
      · rename_i hpaused
        rw [@statusOf_updateEndpoint _ endpointId (Endpoint.pause clock) (fun _ => .pausedDeliveryFailures) fun _ => rfl,
          statusOf, Service.endpoints_updateDelivery]
        simp [statusOf, not_not.mp hended, hpaused, hexhausted]
      · rename_i hpaused
        exact hsame _ (Service.endpoints_updateDelivery ..) fun h => hpaused h.1.2
    · rename_i hexhausted
      exact hsame _ (Service.endpoints_updateDelivery ..) fun h => hexhausted h.2.1

theorem counter_retryOrExhaust (m : Service) (clock : Clock) (stored : Stored) (endpointId id : ℕ) (d : Delivery)
    (fault : Fault) : (retryOrExhaust settings clock stored endpointId id d fault m).endpointCounter = m.endpointCounter := by
  unfold retryOrExhaust
  split
  · rfl
  · split
    · dsimp only
      split
      · rw [counter_updateEndpoint, Service.counter_updateDelivery]
      · rw [Service.counter_updateDelivery]
    · rw [Service.counter_updateDelivery]

theorem pauses_of_not_fails {e : Action} (h : ¬ s.fails settings e) : s.pauses settings e = none :=
  if_neg fun hfails => h hfails.1

theorem status_fail {e : Action} {a : Attempt} (ha : s.stage.attempt? = some a) (hfails : s.fails settings e)
    (fault : Fault) (hafter : s.statusAfter settings e = fun id status =>
      if s.pauses settings e = some id then .pausedDeliveryFailures else status) :
    (fail settings e.clock e.stored a fault s.service).service.endpointCounter = s.service.endpointCounter ∧
      ∀ id, statusOf (fail settings e.clock e.stored a fault s.service).service id =
        (statusOf s.service id).map (s.statusAfter settings e id) := by
  refine ⟨counter_retryOrExhaust .., fun id => (statusOf_retryOrExhaust ..).trans ?_⟩
  rw [hafter]
  refine congrArg (fun g => (statusOf s.service id).map g) (funext fun status => ?_)
  simp only [System.pauses, hfails, true_and, ha]
  by_cases hstored : e.stored.ended = true ∧ e.stored.paused = true
  · by_cases hexhausted : a.delivery.isExhausted settings e.clock = true
    · simp [hstored, hexhausted]
    · simp [hexhausted]
  · simp only [if_neg hstored, reduceCtorEq, if_false]
    exact if_neg fun h => hstored h.1

theorem statusAfter_still {e : Action} (hno : s.pauses settings e = none) (hdelete : ∀ id now, e ≠ .delete id now)
    (henable : ∀ id, e ≠ .enable id) (id : ℕ) : s.statusAfter settings e id = fun status => status :=
  funext fun status => by
    unfold System.statusAfter
    split
    · exact absurd rfl (hdelete _ _)
    · exact absurd rfl (henable _)
    · rw [hno, if_neg nofun]

/-- An action that leaves the endpoints, and pauses none. -/
theorem status_still {e : Action} (hno : s.pauses settings e = none) (hdelete : ∀ id now, e ≠ .delete id now)
    (henable : ∀ id, e ≠ .enable id) (hendpoints : t.service.endpoints = s.service.endpoints)
    (hcounter : t.service.endpointCounter = s.service.endpointCounter) :
    t.service.endpointCounter = s.service.endpointCounter ∧
      ∀ id, statusOf t.service id = (statusOf s.service id).map (s.statusAfter settings e id) := by
  refine ⟨hcounter, fun id => ?_⟩
  rw [statusAfter_still hno hdelete henable, Option.map_id_fun', id_eq, statusOf, statusOf, hendpoints]

theorem status_deliver (hs : Inv settings s) (hidle : s.stage = .idle) {clock : Clock} {stored : Stored} {picked : Picked}
    (hpicked : dispatchOne clock.now s.service = some picked) :
    (deliver settings clock stored picked s.service).service.endpointCounter = s.service.endpointCounter ∧
      ∀ id, statusOf (deliver settings clock stored picked s.service).service id =
        (statusOf s.service id).map (s.statusAfter settings (.dispatch clock stored) id) := by
  obtain ⟨hmem, hat⟩ := mem_of_due hpicked
  have hget := Dict.get_of_mem hs.numbered.nodup hmem
  have hthere : (s.service.updateDelivery picked.endpointId picked.deliveryId
      (Delivery.begin clock picked.delivery)).delivery picked.endpointId picked.deliveryId =
      some (Delivery.begin clock picked.delivery picked.delivery) := by
    refine Service.delivery_eq_some.mpr ⟨?_, hat⟩
    rw [Service.get_updateDelivery, if_pos rfl, hget, Option.map_some, if_pos hat]
  have hfails : s.fails settings (.dispatch clock stored) = (stored.begun && !(prepare settings clock
      (s.service.updateDelivery picked.endpointId picked.deliveryId (Delivery.begin clock picked.delivery)) picked
      (Delivery.begin clock picked.delivery picked.delivery)).isOk) := by
    simp only [System.fails, hidle, hpicked, hthere, Option.any_some]
  unfold deliver
  split
  · rename_i hbegun
    refine status_still (pauses_of_not_fails fun h => ?_) (by simp) (by simp) rfl rfl
    rw [hfails] at h
    exact hbegun (Bool.and_eq_true_iff.mp h).1
  · rename_i hbegun
    dsimp only
    rw [hthere]
    dsimp only
    split
    · rename_i request hprepare
      refine status_still (pauses_of_not_fails fun h => ?_) (by simp) (by simp) (Service.endpoints_updateDelivery ..)
        (Service.counter_updateDelivery ..)
      rw [hfails, hprepare] at h
      simp [Except.isOk, Except.toBool] at h
    · rename_i fault hprepare
      refine ⟨(counter_retryOrExhaust ..).trans (Service.counter_updateDelivery ..), fun id =>
        (statusOf_retryOrExhaust ..).trans ?_⟩
      have hfailing : s.fails settings (.dispatch clock stored) = true := by
        rw [hfails, hprepare]
        simp [Except.isOk, Except.toBool, not_not.mp hbegun]
      rw [show statusOf (s.service.updateDelivery picked.endpointId picked.deliveryId
        (Delivery.begin clock picked.delivery)) id = statusOf s.service id by
          rw [statusOf, Service.endpoints_updateDelivery]; rfl]
      refine congrArg (fun g => (statusOf s.service id).map g) (funext fun status => ?_)
      simp only [System.statusAfter, System.pauses, hfailing, hidle, Stage.attempt?, Action.clock, hpicked,
        Action.stored, true_and, Option.bind_some]
      by_cases hstored : stored.ended = true ∧ stored.paused = true
      · by_cases hexhausted : (Delivery.begin clock picked.delivery picked.delivery).isExhausted settings clock = true
        · simp [hstored, hexhausted]
        · simp [hexhausted]
      · simp only [if_neg hstored, reduceCtorEq, if_false]
        exact if_neg fun h => hstored h.1

/-- What an action does to the status of an endpoint that is there. -/
theorem take_status (hs : Inv settings s) {e : Action} (h : s.take settings e = some t)
    (hnew : ∀ endpoint, e ≠ .createEndpoint endpoint) :
    t.service.endpointCounter = s.service.endpointCounter ∧
      ∀ id, statusOf t.service id = (statusOf s.service id).map (s.statusAfter settings e id) := by
  unfold System.take at h
  cases e with
  | createEndpoint endpoint => exact absurd rfl (hnew endpoint)
  | createRun runId run =>
    dsimp only at h
    split at h
    · cases h
    · cases h
      exact status_still (pauses_of_not_fails Bool.false_ne_true) (by simp) (by simp) rfl rfl
  | enterPhase runId phase =>
    obtain ⟨run, -, rfl⟩ := Option.map_eq_some_iff.mp h
    exact status_still (pauses_of_not_fails Bool.false_ne_true) (by simp) (by simp) rfl rfl
  | append runId endpointIds event =>
    obtain ⟨m, hm, rfl⟩ := Option.map_eq_some_iff.mp h
    unfold Service.appendEvent at hm
    split at hm
    · cases hm
    · split at hm
      · cases hm
      · split at hm
        · cases hm
          exact status_still (pauses_of_not_fails Bool.false_ne_true) (by simp) (by simp) rfl rfl
        · cases hm
          rename_i run hrun hperm hfresh
          set logged : Service :=
            { s.service with runs := s.service.runs.set runId { run with events := run.events ++ [event.numbered run] } }
          have hlogged : logged.Numbered := hs.numbered.of_deliveries rfl rfl
          obtain ⟨-, hendpoints, -, hcounter, -⟩ := Service.deliver_all runId run (event.numbered run) hlogged
            endpointIds
          exact status_still (pauses_of_not_fails Bool.false_ne_true) (by simp) (by simp) hendpoints hcounter
  | delete endpointId now =>
    cases h
    refine ⟨counter_updateEndpoint .., statusOf_updateEndpoint s.service endpointId (f := fun _ => .disabled) ?_⟩
    intro endpoint
    split
    · assumption
    · rfl
  | rotate endpointId secret validUntil =>
    cases h
    refine ⟨counter_updateEndpoint .., fun id => ?_⟩
    rw [@statusAfter_still settings s (.rotate endpointId secret validUntil) (pauses_of_not_fails Bool.false_ne_true) (by simp) (by simp)]
    refine (statusOf_updateEndpoint s.service endpointId (f := fun status => status) (fun endpoint => ?_) id).trans ?_
    · split <;> rfl
    · simp only [ite_self]
  | enable endpointId =>
    cases h
    refine ⟨counter_updateEndpoint .., statusOf_updateEndpoint s.service endpointId (f := fun _ => .active) ?_⟩
    intro endpoint
    split
    · assumption
    · rfl
  | redeliver endpointId id expired now =>
    cases h
    have hframe : (s.service.redeliver endpointId id expired now).endpoints = s.service.endpoints ∧
        (s.service.redeliver endpointId id expired now).endpointCounter = s.service.endpointCounter := by
      unfold Service.redeliver
      split
      · exact ⟨rfl, rfl⟩
      · split
        · exact ⟨rfl, rfl⟩
        · exact ⟨Service.endpoints_updateDelivery .., Service.counter_updateDelivery ..⟩
    exact status_still (pauses_of_not_fails Bool.false_ne_true) (by simp) (by simp) hframe.1 hframe.2
  | start failsAt now =>
    have hframe : ∀ ids, (s.service.recover now ids).endpoints = s.service.endpoints ∧
        (s.service.recover now ids).endpointCounter = s.service.endpointCounter := fun ids => by
      obtain ⟨-, hendpoints, -, -, hcounter⟩ := recover_frame now ids s.service hs.numbered
      exact ⟨hendpoints, hcounter⟩
    dsimp only at h
    split at h
    · cases h
      exact status_still (pauses_of_not_fails Bool.false_ne_true) (by simp) (by simp) (hframe _).1 (hframe _).2
    · cases h
      exact status_still (pauses_of_not_fails Bool.false_ne_true) (by simp) (by simp) (hframe _).1 (hframe _).2
    · cases h
  | dispatch clock stored =>
    dsimp only at h
    split at h
    · rename_i hidle
      cases hpicked : dispatchOne clock.now s.service with
      | none =>
        rw [hpicked] at h
        cases h
        refine status_still (pauses_of_not_fails ?_) (by simp) (by simp) rfl rfl
        simp [System.fails, hidle, hpicked]
      | some picked =>
        rw [hpicked] at h
        cases h
        exact status_deliver hs hidle hpicked
    · cases h
  | resolved fault clock stored =>
    dsimp only at h
    split at h
    · rename_i a ha
      cases fault with
      | none =>
        cases h
        exact status_still (pauses_of_not_fails Bool.false_ne_true) (by simp) (by simp) rfl rfl
      | some fault =>
        cases h
        exact status_fail (e := .resolved (some fault) clock stored) (by rw [ha]; rfl) rfl fault rfl
    · cases h
  | response outcome clock stored =>
    dsimp only at h
    split at h
    · rename_i a ha
      cases h
      have hfailed := fun (hfails : s.fails settings (.response outcome clock stored)) fault =>
        status_fail (e := .response outcome clock stored) (by rw [ha]; rfl) hfails fault rfl
      unfold conclude
      cases outcome with
      | error fault => exact hfailed rfl fault
      | ok status =>
        dsimp only
        split
        · rename_i hstatus
          split
          · rename_i hstored
            exact status_still (pauses_of_not_fails (by simp [System.fails, hstatus, hstored])) (by simp) (by simp)
              (Service.endpoints_updateDelivery ..) (Service.counter_updateDelivery ..)
          · rename_i hstored
            exact hfailed (by simp [System.fails, hstored]) storeFault
        · rename_i hstatus
          exact hfailed (by simp only [System.fails, hstatus, decide_false, Bool.not_false, Bool.true_or]) _
    · cases h
  | stop stored now =>
    dsimp only at h
    have hstill := fun {t : System} => @status_still settings s t (.stop stored now)
      (pauses_of_not_fails Bool.false_ne_true) (by simp) (by simp)
    cases ha : s.stage.attempt? with
    | none =>
      rw [ha] at h
      cases h
      exact hstill rfl rfl
    | some a =>
      rw [ha] at h
      cases h
      unfold cancel
      cases stored with
      | false => exact hstill rfl rfl
      | true => exact hstill (Service.endpoints_updateDelivery ..) (Service.counter_updateDelivery ..)

/-! ### Histories -/

theorem status_createEndpoint (m : Service) (endpoint : Endpoint) {id : ℕ} (h : id ≠ m.endpointCounter + 1) :
    statusOf (m.createEndpoint endpoint) id = statusOf m id := by
  unfold statusOf Service.createEndpoint
  dsimp only
  rw [Dict.get_set, if_neg h]

namespace System

theorem counted_init : Counted ({} : System).service := fun _ h => by cases h

theorem counted_take (hs : Inv settings s) (hcounted : Counted s.service) {e : Action} (h : s.take settings e = some t) :
    Counted t.service := fun id hid => by
  by_cases hnew : ∃ endpoint, e = .createEndpoint endpoint
  · obtain ⟨endpoint, rfl⟩ := hnew
    cases h
    show id ≤ s.service.endpointCounter + 1
    by_cases heq : id = s.service.endpointCounter + 1
    · exact heq.le
    · have hid : (statusOf (s.service.createEndpoint endpoint) id).isSome := hid
      rw [status_createEndpoint s.service endpoint heq] at hid
      exact (hcounted id hid).trans (Nat.le_succ _)
  · obtain ⟨hcounter, hstatus⟩ := take_status hs h fun endpoint he => hnew ⟨endpoint, he⟩
    rw [hstatus, Option.isSome_map] at hid
    exact hcounter ▸ hcounted id hid

theorem counted_step (hs : Inv settings s) (hcounted : Counted s.service) {l : Label} (h : s.step settings l = some t) :
    Counted t.service := by
  rcases step_cases h with ⟨-, rfl⟩ | ⟨e, u, -, hu, hcase⟩
  · exact hcounted
  · have hcounted' := counted_take hs hcounted hu
    rcases hcase with ⟨-, rfl⟩ | rfl <;> exact hcounted'

/-- What an action does to the status of an endpoint. -/
theorem status_take (hs : Inv settings s) (hcounted : Counted s.service) {e : Action} (h : s.take settings e = some t)
    {id : ℕ} {status : EndpointStatus} (hstatus : statusOf s.service id = some status) :
    statusOf t.service id = some (s.statusAfter settings e id status) := by
  by_cases hnew : ∃ endpoint, e = .createEndpoint endpoint
  · obtain ⟨endpoint, rfl⟩ := hnew
    cases h
    have hne : id ≠ s.service.endpointCounter + 1 := fun heq => by
      have hle := hcounted id (by rw [hstatus]; rfl)
      omega
    rw [@statusAfter_still settings s (.createEndpoint endpoint) (pauses_of_not_fails nofun) nofun nofun, ← hstatus]
    exact status_createEndpoint s.service endpoint hne
  · rw [(take_status hs h fun endpoint he => hnew ⟨endpoint, he⟩).2, hstatus, Option.map_some]

/-- An action that pauses an endpoint exhausts a delivery there. -/
theorem exhausts_of_pauses (hs : Inv settings s) {e : Action} (h : s.take settings e = some t) {id : ℕ}
    (hpauses : s.pauses settings e = some id) :
    ∃ n d d', s.service.deliveries.get n = some d ∧ d.webhookEndpointId = id ∧ d.status ≠ .exhausted ∧
      t.service.deliveries.get n = some d' ∧ d'.status = .exhausted := by
  unfold pauses at hpauses
  split at hpauses
  · rename_i hfails
    have hexhaust : ∀ {n fault} {d : Delivery}, d.isExhausted settings e.clock = true →
        (d.failed settings e.clock e.stored n fault).status = .exhausted := fun hexhausted => by
      unfold Delivery.failed
      rw [if_neg (not_not.mpr hfails.2.1), if_pos hexhausted]
      rfl
    rcases fails_cases h hfails.1 with ⟨a, ha⟩ | ⟨clock, stored, picked, rfl, hidle, hpicked, hbegun⟩
    · rw [ha] at hpauses
      dsimp only at hpauses
      split at hpauses
      · rename_i hexhausted
        cases hpauses
        have hflight := hs.flight a ha
        obtain ⟨hget, hat⟩ := Service.delivery_eq_some.mp hflight.there
        have hunfinished : a.delivery.status ≠ .exhausted := by rw [hflight.delivering]; nofun
        obtain ⟨fault, rfl⟩ := take_of_fails h ha hfails.1
        have hend := get_retryOrExhaust settings hflight.there e.clock e.stored fault a.deliveryId
        rw [if_pos rfl] at hend
        exact ⟨a.deliveryId, a.delivery, _, hget, hat, hunfinished, hend, hexhaust hexhausted⟩
      · cases hpauses
    · rw [hidle] at hpauses
      simp only [Stage.attempt?, Action.clock, hpicked, Option.bind_some] at hpauses
      obtain ⟨hexhausted, hat⟩ := Option.ite_none_right_eq_some.mp hpauses
      cases hat
      obtain ⟨hmem, hplaced⟩ := mem_of_due hpicked
      have hget := Dict.get_of_mem hs.numbered.nodup hmem
      have hunfinished : picked.delivery.status ≠ .exhausted := fun hstatus => by
        have hdue := (due_eq_some (dispatchOne_eq_some hpicked).2.2).1
        rw [hstatus] at hdue
        cases hdue
      obtain ⟨d', hd', hmoved⟩ := (taken hs h).moved _ _ hget
      refine ⟨_, _, d', hget, hplaced, hunfinished, hd', ?_⟩
      generalize hstage : t.stage = stage at hmoved
      cases hmoved with
      | stays _ _ hstarts => exact absurd (by simp [starts, hidle, hpicked, hbegun]) hstarts
      | begins _ _ _ _ _ hno => exact absurd hfails.1 hno
      | spoils => exact hexhaust hexhausted
      | fails ha => rw [hidle] at ha; cases ha
  · cases hpauses

/-- No attempt is exhausted at an endpoint that is disabled then. -/
def Spares (settings : Settings) (s : System) (l : Label) : Prop :=
  ∀ e, l.act? = some e → ∀ id, s.pauses settings e = some id → statusOf s.service id ≠ some .disabled

theorem status_step (hs : Inv settings s) (hcounted : Counted s.service) {l : Label} (h : s.step settings l = some t)
    {id : ℕ} {status : EndpointStatus} (hstatus : statusOf s.service id = some status) :
    l.act? = none ∧ statusOf t.service id = some status ∨
      ∃ e u, l.act? = some e ∧ s.take settings e = some u ∧ t.service = u.service ∧
        statusOf t.service id = some (s.statusAfter settings e id status) := by
  rcases step_cases h with ⟨hl, rfl⟩ | ⟨e, u, hl, hu, hcase⟩
  · exact .inl ⟨hl, hstatus⟩
  · have hservice : t.service = u.service := by rcases hcase with ⟨-, rfl⟩ | rfl <;> rfl
    exact .inr ⟨e, u, hl, hu, hservice, hservice ▸ status_take hs hcounted hu hstatus⟩

theorem statusAfter_cases (settings : Settings) (s : System) (e : Action) (id : ℕ) (status : EndpointStatus) :
    s.statusAfter settings e id status = status ∨
      (∃ now, e = .delete id now) ∧ s.statusAfter settings e id status = .disabled ∨
      e = .enable id ∧ s.statusAfter settings e id status = .active ∨
      s.pauses settings e = some id ∧ s.statusAfter settings e id status = .pausedDeliveryFailures := by
  unfold statusAfter
  split
  · rename_i endpointId now
    split
    · rename_i heq
      exact .inr (.inl ⟨⟨now, by rw [heq]⟩, rfl⟩)
    · exact .inl rfl
  · rename_i endpointId
    split
    · rename_i heq
      exact .inr (.inr (.inl ⟨by rw [heq], rfl⟩))
    · exact .inl rfl
  · split
    · rename_i heq
      exact .inr (.inr (.inr ⟨heq, rfl⟩))
    · exact .inl rfl

theorem statusAfter_of_pauses {e : Action} {id : ℕ} (h : s.pauses settings e = some id) (status : EndpointStatus) :
    s.statusAfter settings e id status = .pausedDeliveryFailures := by
  cases e with
  | delete endpointId now =>
    rw [@pauses_of_not_fails settings s (.delete endpointId now) nofun] at h
    cases h
  | enable endpointId =>
    rw [@pauses_of_not_fails settings s (.enable endpointId) nofun] at h
    cases h
  | _ => exact if_pos h

/-- An endpoint that was not there is active. -/
theorem status_new (hs : Inv settings s) {l : Label} (h : s.step settings l = some t) {id : ℕ} {status : EndpointStatus}
    (hnone : statusOf s.service id = none) (ht : statusOf t.service id = some status) : status = .active := by
  have htake : ∀ {e u}, s.take settings e = some u → statusOf u.service id = some status → status = .active :=
    fun {e u} hu hstatus => by
      by_cases hnew : ∃ endpoint, e = .createEndpoint endpoint
      · obtain ⟨endpoint, rfl⟩ := hnew
        cases hu
        have hstatus : statusOf (s.service.createEndpoint endpoint) id = some status := hstatus
        by_cases hid : id = s.service.endpointCounter + 1
        · subst hid
          unfold statusOf Service.createEndpoint at hstatus
          dsimp only at hstatus
          rw [Dict.get_set_self] at hstatus
          exact (Option.some.inj hstatus).symm
        · rw [status_createEndpoint s.service endpoint hid, hnone] at hstatus
          cases hstatus
      · rw [(take_status hs hu fun endpoint he => hnew ⟨endpoint, he⟩).2, hnone] at hstatus
        cases hstatus
  rcases step_cases h with ⟨-, rfl⟩ | ⟨e, u, -, hu, ⟨-, rfl⟩ | rfl⟩
  · exact absurd (hnone.symm.trans ht) nofun
  · exact htake hu ht
  · exact htake hu ht

end System

/-! ### Disabled endpoints -/

/-- The step exhausts an attempt of a delivery at the endpoint, and pauses it. -/
structure ExhaustedIn (settings : Settings) (s : System) (l : System.Label) (t : System) (id : ℕ) : Prop where
  pauses : ∃ e, l.act? = some e ∧ s.pauses settings e = some id
  exhausts : ∃ n d d', s.service.deliveries.get n = some d ∧ d.webhookEndpointId = id ∧ d.status ≠ .exhausted ∧
    t.service.deliveries.get n = some d' ∧ d'.status = .exhausted

variable {ls : List System.Label}

theorem reached {ok : System → System.Label → Prop} (h : Runs.Run (System.step settings) ok {} ls s) :
    Inv settings s ∧ System.Counted s.service :=
  h.invariant (I := fun s => Inv settings s ∧ System.Counted s.service)
    (fun _ _ _ hs _ hstep => ⟨inv_step hs.1 hstep, System.counted_step hs.1 hs.2 hstep⟩) ⟨inv_init, System.counted_init⟩

/-- From any state that is reached: an endpoint that is disabled stays so, until a request
enables it, in every history in which no attempt is exhausted at an endpoint that is
disabled; a step other than that request takes it from there exactly if it does exhaust
one; and an endpoint comes to be paused in no step but one that exhausts an attempt. -/
theorem disabled_until_enabled (h : Runs.Run (System.step settings) Runs.Free {} ls s) (id : ℕ) :
    (∀ ms t, Runs.Run (System.step settings) (System.Spares settings) s ms t →
      statusOf s.service id = some .disabled → statusOf t.service id ≠ some .disabled →
        ∃ l ∈ ms, l.act? = some (.enable id)) ∧
    (∀ e t, s.take settings e = some t → statusOf s.service id = some .disabled → e ≠ .enable id →
      (statusOf t.service id ≠ some .disabled ↔ s.pauses settings e = some id)) ∧
    ∀ ms t, Runs.Run (System.step settings) Runs.Free s ms t →
      statusOf s.service id ≠ some .pausedDeliveryFailures → statusOf t.service id = some .pausedDeliveryFailures →
        ∃ ms₁ l ms₂ u v, ms = ms₁ ++ l :: ms₂ ∧ Runs.Run (System.step settings) Runs.Free s ms₁ u ∧
          u.step settings l = some v ∧ ExhaustedIn settings u l v id := by
  obtain ⟨hinv, hcounted⟩ := reached h
  refine ⟨fun ms t hrun => ?_, fun e t htake hdisabled hne => ?_, fun ms t hrun hs ht => ?_⟩
  · clear h
    induction hrun with
    | nil s => exact fun hs ht => absurd hs ht
    | @cons s u t l ms hspares hstep rest ih =>
      intro hs ht
      by_cases hu : statusOf u.service id = some .disabled
      · obtain ⟨l', hl', henable⟩ := ih (inv_step hinv hstep) (System.counted_step hinv hcounted hstep) hu ht
        exact ⟨l', List.mem_cons_of_mem l hl', henable⟩
      · rcases System.status_step hinv hcounted hstep hs with ⟨-, hsame⟩ | ⟨e, w, hl, -, -, hafter⟩
        · exact absurd hsame hu
        · rcases System.statusAfter_cases settings s e id .disabled with heq | ⟨-, heq⟩ | ⟨rfl, -⟩ | ⟨hpauses, -⟩
          · exact absurd (heq ▸ hafter) hu
          · exact absurd (heq ▸ hafter) hu
          · exact ⟨l, List.mem_cons_self, hl⟩
          · exact absurd hs (hspares e hl id hpauses)
  · rw [System.status_take hinv hcounted htake hdisabled]
    constructor
    · intro hleaves
      rcases System.statusAfter_cases settings s e id .disabled with heq | ⟨-, heq⟩ | ⟨rfl, -⟩ | ⟨hpauses, -⟩
      · exact absurd (congrArg some heq) hleaves
      · exact absurd (congrArg some heq) hleaves
      · exact absurd rfl hne
      · exact hpauses
    · intro hpauses
      rw [System.statusAfter_of_pauses hpauses]
      nofun
  · obtain ⟨ms₁, l, ms₂, u, v, hms, hrun₁, hstep, -, hno, hyes⟩ :=
      hrun.turns (P := fun s => statusOf s.service id = some .pausedDeliveryFailures) hs ht
    obtain ⟨hinv, hcounted⟩ := reached (h.append hrun₁)
    refine ⟨ms₁, l, ms₂, u, v, hms, hrun₁, hstep, ?_⟩
    cases hu : statusOf u.service id with
    | none => cases System.status_new hinv hstep hu hyes
    | some status =>
      rcases System.status_step hinv hcounted hstep hu with ⟨-, hsame⟩ | ⟨e, w, hl, htake, hservice, hafter⟩
      · exact absurd (hu.trans (hsame.symm.trans hyes)) hno
      · rw [hyes] at hafter
        rcases System.statusAfter_cases settings u e id status with heq | ⟨-, heq⟩ | ⟨-, heq⟩ | ⟨hpauses, -⟩
        · exact absurd (hu.trans (heq ▸ hafter.symm)) hno
        · rw [heq] at hafter
          cases hafter
        · rw [heq] at hafter
          cases hafter
        · exact ⟨⟨e, hl, hpauses⟩, hservice ▸ System.exhausts_of_pauses hinv htake hpauses⟩

/-! ### An endpoint that is deleted during an attempt -/

instance (s : System) (l : System.Label) : Decidable (s.Spares settings l) :=
  decidable_of_iff (∀ e ∈ l.act?, ∀ id ∈ s.pauses settings e, statusOf s.service id ≠ some .disabled) Iff.rfl

namespace Deleted

open Lost (attempt clock moment)

/-- The first attempt is the last. -/
def trusting : Settings := { Lost.trusting with maxAttempts := 1 }

def delete : System.Label := .action (.delete 1 (moment 2 0).iso)

def exhausted : System.Label := .action (.response (.error ⟨"ReadTimeout", "", none⟩) clock {})

theorem paused : (Runs.exec (System.step trusting) Runs.Free {} (attempt ++ [delete])).any (fun s =>
    statusOf s.service 1 = some .disabled ∧ ((s.step trusting exhausted).any fun t =>
      statusOf t.service 1 = some .pausedDeliveryFailures) = true) = true := by decide +kernel

/-- The end of the attempt takes the endpoint from what the request has set. -/
theorem leaves_disabled :
    ¬ ∀ (ls ms : List System.Label) (s t : System) (id : ℕ), Runs.Run (System.step trusting) Runs.Free {} ls s →
      Runs.Run (System.step trusting) Runs.Free s ms t → statusOf s.service id = some .disabled →
        statusOf t.service id ≠ some .disabled → ∃ l ∈ ms, l.act? = some (.enable id) := fun h => by
  obtain ⟨s, hs, hboth⟩ := (Option.any_eq_true _ _).mp paused
  obtain ⟨hdisabled, hstep⟩ := of_decide_eq_true hboth
  obtain ⟨t, ht, hpaused⟩ := (Option.any_eq_true _ _).mp hstep
  obtain ⟨l, hl, henable⟩ := h _ [exhausted] s t 1 (Runs.run_of_exec hs) (.cons trivial ht (.nil t)) hdisabled
    (by rw [of_decide_eq_true hpaused]; nofun)
  cases List.mem_singleton.mp hl
  cases henable

def enabled : List System.Label := [delete, .action (.response (.ok 200) clock {}), .action (.enable 1)]

theorem active : (Runs.exec (System.step trusting) Runs.Free {} (attempt ++ [delete])).any (fun s =>
    statusOf s.service 1 = some .disabled ∧ ((Runs.exec (System.step trusting) (System.Spares trusting) s enabled).any
      fun t => statusOf t.service 1 = some .active) = true) = true := by decide +kernel

/-- With a response that arrives, only the request enables it. -/
theorem enabled_again : ∃ s t : System, statusOf s.service 1 = some .disabled ∧ statusOf t.service 1 = some .active ∧
    ∃ l ∈ enabled, l.act? = some (.enable 1) := by
  obtain ⟨s, hs, hboth⟩ := (Option.any_eq_true _ _).mp active
  obtain ⟨hdisabled, hexec⟩ := of_decide_eq_true hboth
  obtain ⟨t, ht, hactive⟩ := (Option.any_eq_true _ _).mp hexec
  have hactive := of_decide_eq_true hactive
  refine ⟨s, t, hdisabled, hactive, (disabled_until_enabled (Runs.run_of_exec hs) 1).1 _ _ (Runs.run_of_exec ht)
    hdisabled ?_⟩
  rw [hactive]
  nofun

end Deleted

end AutomlApi.Webhooks
