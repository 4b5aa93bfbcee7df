import AutomlApi.Webhooks.Attempts

/-! The life of a delivery, over whole histories of the dispatcher, the requests, the
failures of the store and the deaths of the process. A delivery has succeeded only after a
response that says so, and stays so; its count is the number of the attempts started. An
idle dispatcher has none under way, as long as the update that ends a failed attempt does
not fail itself. -/

namespace AutomlApi.Webhooks

variable {settings : Settings} {s t u : System}

/-! ### Steps -/

namespace System

/-- The action of a label, if it is not just a death. -/
def Label.act? : Label → Option Action
  | .action a => some a
  | .crash during => during

theorem step_cases {l : Label} (h : s.step settings l = some t) :
    l.act? = none ∧ t = s.halt ∨
      ∃ a u, l.act? = some a ∧ s.take settings a = some u ∧ (l = .action a ∧ t = u ∨ t = u.halt) := by
  cases l with
  | action a => exact .inr ⟨a, t, rfl, h, .inl ⟨rfl, rfl⟩⟩
  | crash during =>
    cases during with
    | none =>
      cases h
      exact .inl ⟨rfl, rfl⟩
    | some a =>
      obtain ⟨u, hu, rfl⟩ := Option.map_eq_some_iff.mp h
      exact .inr ⟨a, u, rfl, hu, .inr rfl⟩

end System

theorem Inv.halt (h : Inv settings s) : Inv settings s.halt :=
  ⟨h.numbered, h.placed, fun a ha => absurd ha (grounded (.inr rfl) a)⟩

theorem inv_init : Inv settings {} where
  numbered := ⟨List.nodup_nil, fun _ _ h => by cases h⟩
  placed _ _ h := by cases h
  flight a ha := absurd ha (grounded (.inr rfl) a)

theorem inv_step (hs : Inv settings s) {l : System.Label} (h : s.step settings l = some t) : Inv settings t := by
  rcases System.step_cases h with ⟨-, rfl⟩ | ⟨a, u, -, hu, ⟨-, rfl⟩ | rfl⟩
  · exact hs.halt
  · exact (taken hs hu).inv
  · exact (taken hs hu).inv.halt

theorem inv_run {ok : System → System.Label → Prop} {ls : List System.Label}
    (h : Runs.Run (System.step settings) ok s ls t) (hs : Inv settings s) : Inv settings t :=
  h.invariant (fun _ _ _ hs _ hstep => inv_step hs hstep) hs

/-- What a step does to a delivery: it is as it was, or the action of the step has moved it. -/
theorem moved_step (hs : Inv settings s) {l : System.Label} (h : s.step settings l = some t) {id : ℕ} {d : Delivery}
    (hd : s.service.deliveries.get id = some d) :
    ∃ d', t.service.deliveries.get id = some d' ∧
      (l.act? = none ∧ d' = d ∨ ∃ a stage, l.act? = some a ∧ Moved settings s id d a stage d' ∧
        (l = .action a ∧ t.stage = stage ∨ t.stage = .stopped)) := by
  rcases System.step_cases h with ⟨hl, rfl⟩ | ⟨a, u, hl, hu, hcase⟩
  · exact ⟨d, hd, .inl ⟨hl, rfl⟩⟩
  · obtain ⟨d', hd', hmoved⟩ := (taken hs hu).moved id d hd
    rcases hcase with ⟨rfl, rfl⟩ | rfl
    · exact ⟨d', hd', .inr ⟨a, _, hl, hmoved, .inl ⟨rfl, rfl⟩⟩⟩
    · exact ⟨d', hd', .inr ⟨a, _, hl, hmoved, .inr rfl⟩⟩

/-- Where a delivery that was not there comes from. -/
theorem new_step (hs : Inv settings s) {l : System.Label} (h : s.step settings l = some t) {id : ℕ} {d : Delivery}
    (hd : t.service.deliveries.get id = some d) (hnone : s.service.deliveries.get id = none) :
    ∃ runId run endpointIds event endpointId, l.act? = some (.append runId endpointIds event) ∧
      s.service.runs.get runId = some run ∧ (∀ other ∈ run.events, other.eventId ≠ event.eventId) ∧
      d = newDelivery runId run event endpointId ∧
      ∃ run', t.service.runs.get runId = some run' ∧ event.numbered run ∈ run'.events := by
  have htaken : ∀ {a u}, s.take settings a = some u → u.service.deliveries.get id = some d →
      ∃ runId run endpointIds event endpointId, a = .append runId endpointIds event ∧
        s.service.runs.get runId = some run ∧ (∀ other ∈ run.events, other.eventId ≠ event.eventId) ∧
        d = newDelivery runId run event endpointId ∧
        ∃ run', u.service.runs.get runId = some run' ∧ event.numbered run ∈ run'.events :=
    fun hu hd => (taken hs hu).new id d hd hnone
  rcases System.step_cases h with ⟨hl, rfl⟩ | ⟨a, u, hl, hu, ⟨rfl, rfl⟩ | rfl⟩
  · exact absurd (hnone.symm.trans hd) nofun
  · obtain ⟨runId, run, endpointIds, event, endpointId, rfl, hnew⟩ := htaken hu hd
    exact ⟨runId, run, endpointIds, event, endpointId, hl, hnew⟩
  · obtain ⟨runId, run, endpointIds, event, endpointId, rfl, hnew⟩ := htaken hu hd
    exact ⟨runId, run, endpointIds, event, endpointId, hl, hnew⟩

/-! ### What a delivery is about -/

/-- The fields of a delivery that no update names. -/
def Delivery.about (d : Delivery) : ℕ × String × String × String := (d.webhookEndpointId, d.eventId, d.runId, d.createdAt)

theorem failed_cases (settings : Settings) (clock : Clock) (stored : Stored) (id : ℕ) (fault : Fault) (d : Delivery) :
    d.failed settings clock stored id fault = d ∧ stored.ended = false ∨
      (d.failed settings clock stored id fault).about = d.about ∧
        (d.failed settings clock stored id fault).attemptCount = d.attemptCount ∧
        ((d.failed settings clock stored id fault).status = .exhausted ∨
          (d.failed settings clock stored id fault).status = .retrying) := by
  unfold Delivery.failed
  split
  · rename_i hended
    exact .inl ⟨rfl, by simpa using hended⟩
  · split
    · exact .inr ⟨rfl, rfl, .inl rfl⟩
    · exact .inr ⟨rfl, rfl, .inr rfl⟩

theorem failed_about (settings : Settings) (clock : Clock) (stored : Stored) (id : ℕ) (fault : Fault) (d : Delivery) :
    (d.failed settings clock stored id fault).about = d.about ∧
      (d.failed settings clock stored id fault).attemptCount = d.attemptCount := by
  rcases failed_cases settings clock stored id fault d with ⟨heq, -⟩ | ⟨habout, hcount, -⟩
  · rw [heq]
    exact ⟨rfl, rfl⟩
  · exact ⟨habout, hcount⟩

theorem moved_about {id : ℕ} {d d' : Delivery} {a : Action} {stage : Stage} (h : Moved settings s id d a stage d') :
    d'.about = d.about := by
  cases h with
  | spoils => exact (failed_about ..).1
  | fails => exact (failed_about ..).1
  | _ => rfl

/-- A move counts an attempt if the action starts one. -/
theorem moved_count {id : ℕ} {d d' : Delivery} {a : Action} {stage : Stage} (h : Moved settings s id d a stage d') :
    d'.attemptCount = d.attemptCount + if s.starts a = some id then 1 else 0 := by
  have hstarts : ∀ {clock stored} {picked : Picked}, s.stage = .idle → dispatchOne clock.now s.service = some picked →
      picked.deliveryId = id → stored.begun = true → s.starts (.dispatch clock stored) = some id :=
    fun hidle hpicked hid hbegun => by simp [System.starts, hidle, hpicked, hid, hbegun]
  cases h with
  | stays _ _ hno => rw [if_neg hno]; rfl
  | begins hidle hpicked hid hd hbegun => rw [if_pos (hstarts hidle hpicked hid hbegun)]; rfl
  | spoils hidle hpicked hid hd hbegun =>
    rw [if_pos (hstarts hidle hpicked hid hbegun)]
    exact (failed_about ..).2
  | fails hflying => rw [starts_of_flying hflying, if_neg (by simp)]; exact (failed_about ..).2
  | succeeds hsending => rw [starts_of_flying (show s.stage.attempt? = _ by rw [hsending]; rfl), if_neg (by simp)]; rfl
  | cancelled | recovered | redelivered => rfl

/-- A delivery that is finished stays as it is, unless it is delivered again by hand. -/
theorem moved_finished (hs : Inv settings s) {id : ℕ} {d d' : Delivery} {a : Action} {stage : Stage}
    (h : Moved settings s id d a stage d') (hd : d.status.unfinished = false) :
    d' = d ∨ ∃ endpointId expired now, a = .redeliver endpointId id expired now ∧
      Service.Redeliverable expired d.status := by
  have hpicked : ∀ {now} {picked : Picked}, dispatchOne now s.service = some picked → picked.delivery = d → False :=
    fun hpicked heq => by
      have hunfinished := (due_eq_some (dispatchOne_eq_some hpicked).2.2).1
      rw [heq, hd] at hunfinished
      cases hunfinished
  have hflying : ∀ {a}, s.stage.attempt? = some a → a.delivery = d → False := fun ha heq => by
    have hdelivering := (hs.flight _ ha).delivering
    rw [heq] at hdelivering
    rw [hdelivering] at hd
    cases hd
  cases h with
  | stays => exact .inl rfl
  | begins _ hp _ heq => exact (hpicked hp heq).elim
  | spoils _ hp _ heq => exact (hpicked hp heq).elim
  | fails ha _ heq => exact (hflying ha heq).elim
  | succeeds ha _ heq => exact (hflying (show s.stage.attempt? = _ by rw [ha]; rfl) heq).elim
  | cancelled ha _ heq => exact (hflying ha heq).elim
  | recovered _ hdelivering => rw [hdelivering] at hd; cases hd
  | redelivered hredeliverable => exact .inr ⟨_, _, _, rfl, hredeliverable⟩

/-- A delivery that has succeeded stays as it is. -/
theorem moved_succeeded (hs : Inv settings s) {id : ℕ} {d d' : Delivery} {a : Action} {stage : Stage}
    (h : Moved settings s id d a stage d') (hd : d.status = .succeeded) : d' = d := by
  rcases moved_finished hs h (by rw [hd]; rfl) with heq | ⟨_, expired, _, -, hredeliverable⟩
  · exact heq
  · rw [hd] at hredeliverable
    cases hredeliverable

/-! ### Attempts -/

/-- The number of the attempts of a delivery that a history starts. -/
def attemptsStarted (settings : Settings) (id : ℕ) : System → List System.Label → ℕ
  | _, [] => 0
  | s, l :: ls =>
    (if l.act?.bind s.starts = some id then 1 else 0) + (s.step settings l).elim 0 fun t => attemptsStarted settings id t ls

/-- What is started is the attempt of the delivery that is chosen. -/
theorem starts_cases (hs : Inv settings s) {l : System.Label} {id : ℕ} (h : l.act?.bind s.starts = some id) :
    ∃ now picked, dispatchOne now s.service = some picked ∧ picked.deliveryId = id ∧
      s.service.deliveries.get id = some picked.delivery := by
  obtain ⟨a, -, ha⟩ := Option.bind_eq_some_iff.mp h
  unfold System.starts at ha
  split at ha
  · split at ha
    · split at ha
      · obtain ⟨picked, hpicked, rfl⟩ := Option.map_eq_some_iff.mp ha
        exact ⟨_, picked, hpicked, rfl, Dict.get_of_mem hs.numbered.nodup (mem_of_due hpicked).1⟩
      · cases ha
    · cases ha
  · cases ha

theorem count_step (hs : Inv settings s) {l : System.Label} (h : s.step settings l = some t) {id : ℕ} :
    (∀ d, s.service.deliveries.get id = some d → ∃ d', t.service.deliveries.get id = some d' ∧ d'.about = d.about ∧
      d'.attemptCount = d.attemptCount + if l.act?.bind s.starts = some id then 1 else 0) ∧
    (s.service.deliveries.get id = none → l.act?.bind s.starts ≠ some id ∧
      ∀ d, t.service.deliveries.get id = some d → d.attemptCount = 0) := by
  refine ⟨fun d hd => ?_, fun hnone => ⟨fun hstarts => ?_, fun d hd => ?_⟩⟩
  · obtain ⟨d', hd', ⟨hl, rfl⟩ | ⟨a, stage, hl, hmoved, -⟩⟩ := moved_step hs h hd
    · exact ⟨d', hd', rfl, by rw [hl]; rfl⟩
    · exact ⟨d', hd', moved_about hmoved, by rw [hl]; exact moved_count hmoved⟩
  · obtain ⟨now, picked, -, -, hget⟩ := starts_cases hs hstarts
    exact absurd (hnone.symm.trans hget) nofun
  · obtain ⟨runId, run, endpointIds, event, endpointId, -, -, -, rfl, -⟩ := new_step hs h hd hnone
    rfl

/-- The count of a delivery grows by the attempts that are started. -/
theorem count_run {ok : System → System.Label → Prop} {ls : List System.Label} {id : ℕ}
    (h : Runs.Run (System.step settings) ok s ls t) (hs : Inv settings s) :
    (∀ d, s.service.deliveries.get id = some d → ∃ d', t.service.deliveries.get id = some d' ∧ d'.about = d.about ∧
      d'.attemptCount = d.attemptCount + attemptsStarted settings id s ls) ∧
    (s.service.deliveries.get id = none → ∀ d, t.service.deliveries.get id = some d →
      d.attemptCount = attemptsStarted settings id s ls) := by
  induction h with
  | nil s => exact ⟨fun d hd => ⟨d, hd, rfl, rfl⟩, fun hnone d hd => absurd (hnone.symm.trans hd) nofun⟩
  | @cons s u t l ls _ hstep rest ih =>
    obtain ⟨hthere, hnew⟩ := ih (inv_step hs hstep)
    obtain ⟨hcount, hfresh⟩ := @count_step settings s u hs l hstep id
    unfold attemptsStarted
    rw [hstep, Option.elim_some]
    refine ⟨fun d hd => ?_, fun hnone d hd => ?_⟩
    · obtain ⟨d', hd', habout, hcount⟩ := hcount d hd
      obtain ⟨d'', hd'', habout', hcount'⟩ := hthere d' hd'
      exact ⟨d'', hd'', habout'.trans habout, by rw [hcount', hcount, Nat.add_assoc]⟩
    · obtain ⟨hstarts, hzero⟩ := hfresh hnone
      rw [if_neg hstarts, Nat.zero_add]
      cases hu : u.service.deliveries.get id with
      | none => exact hnew hu d hd
      | some d' =>
        obtain ⟨d'', hd'', -, hcount⟩ := hthere d' hu
        rw [hd] at hd''
        cases hd''
        rw [hcount, hzero d' hu, Nat.zero_add]

/-- An attempt begins with the endpoint as it is. -/
theorem flying_step {l : System.Label} (h : s.step settings l = some t) {a : Attempt} (hs : s.stage.attempt? ≠ some a)
    (ht : t.stage.attempt? = some a) : (a.endpointId, a.endpoint) ∈ s.service.endpoints := by
  obtain ⟨e, he⟩ : ∃ e, s.take settings e = some t := by
    rcases System.step_cases h with ⟨-, rfl⟩ | ⟨e, u, -, hu, ⟨-, rfl⟩ | rfl⟩
    · exact absurd ht (grounded (.inr rfl) a)
    · exact ⟨e, hu⟩
    · exact absurd ht (grounded (.inr rfl) a)
  have hsame : ∀ {m}, t = s.act m → (a.endpointId, a.endpoint) ∈ s.service.endpoints := fun htm => by
    rw [htm] at ht
    exact absurd ht hs
  have hground : t.stage = .idle ∨ t.stage = .stopped → (a.endpointId, a.endpoint) ∈ s.service.endpoints :=
    fun hstage => absurd ht (grounded hstage a)
  unfold System.take at he
  cases e with
  | createEndpoint | delete | rotate | enable | redeliver => exact hsame (Option.some.inj he).symm
  | createRun runId run =>
    dsimp only at he
    split at he
    · cases he
    · exact hsame (Option.some.inj he).symm
  | enterPhase | append =>
    obtain ⟨_, -, rfl⟩ := Option.map_eq_some_iff.mp he
    exact hsame rfl
  | start failsAt now =>
    dsimp only at he
    split at he
    · cases he; exact hground (.inl rfl)
    · cases he; exact hground (.inr rfl)
    · cases he
  | dispatch clock stored =>
    dsimp only at he
    split at he
    · cases hpicked : dispatchOne clock.now s.service with
      | none =>
        rw [hpicked] at he
        exact hsame (m := s.service) (Option.some.inj he).symm
      | some picked =>
        rw [hpicked] at he
        cases he
        rw [Option.elim_some] at ht hground
        unfold deliver at ht hground
        dsimp only at ht hground
        split at ht
        · cases ht
        · split at ht
          · cases ht
          · split at ht
            · cases ht
              exact (dispatchOne_eq_some hpicked).1
            · cases ht
    · cases he
  | resolved fault clock stored =>
    dsimp only at he
    split at he
    · rename_i b hb
      cases fault with
      | none =>
        cases he
        rw [hb] at hs
        exact absurd ht hs
      | some fault => cases he; exact hground (.inl rfl)
    · cases he
  | response outcome clock stored =>
    dsimp only at he
    split at he
    · cases he
      refine hground (.inl ?_)
      unfold conclude
      split
      · rfl
      · split
        · split <;> rfl
        · rfl
    · cases he
  | stop stored now =>
    dsimp only at he
    cases hb : s.stage.attempt? with
    | none =>
      rw [hb] at he
      cases he
      exact hground (.inr rfl)
    | some b =>
      rw [hb] at he
      cases he
      exact hground (.inr rfl)

/-! ### Success -/

/-- A delivery comes to have succeeded in a response to an attempt at it. -/
theorem moved_to_succeeded {id : ℕ} {d d' : Delivery} {e : Action} {stage : Stage} (h : Moved settings s id d e stage d')
    (hd : d.status ≠ .succeeded) (hd' : d'.status = .succeeded) :
    ∃ a clock stored status, e = .response (.ok status) clock stored ∧ (200 ≤ status ∧ status < 300) ∧
      s.stage = .sending a ∧ a.deliveryId = id ∧ a.delivery = d := by
  have hfailed : ∀ {clock stored fault} {d : Delivery}, d.status ≠ .succeeded →
      (d.failed settings clock stored id fault).status ≠ .succeeded := fun {clock stored fault d} hd => by
    rcases failed_cases settings clock stored id fault d with ⟨heq, -⟩ | ⟨-, -, h | h⟩
    · rwa [heq]
    · rw [h]; nofun
    · rw [h]; nofun
  cases h with
  | stays => exact absurd hd' hd
  | begins => cases hd'
  | spoils => exact absurd hd' (hfailed (show DeliveryStatus.delivering ≠ .succeeded by nofun))
  | fails => exact absurd hd' (hfailed hd)
  | @succeeds a clock stored status hsending hid hd hstatus => exact ⟨a, clock, stored, status, rfl, hstatus, hsending, hid, hd⟩
  | cancelled | recovered | redelivered => cases hd'

/-- The step with `l` from `u` is a response to the attempt `a`, and says that the delivery
has succeeded; the request was about its event, and signed with a secret that its endpoint
had before, in the history `ls` that leads to `u`. -/
structure Answered (settings : Settings) (ok : System → System.Label → Prop) (ls : List System.Label) (u : System)
    (l : System.Label) (id : ℕ) (d : Delivery) (a : Attempt) : Prop where
  response : ∃ clock stored status, l.act? = some (.response (.ok status) clock stored) ∧ 200 ≤ status ∧ status < 300
  waiting : u.stage = .sending a
  names : a.request.envelope.deliveryId = id
  carries : a.request.envelope.event.eventId = d.eventId ∧
    ∃ run, u.service.runs.get d.runId = some run ∧ a.request.envelope.event ∈ run.events
  signed : ∃ ls₀ rest v endpoint, ls = ls₀ ++ rest ∧ Runs.Run (System.step settings) ok {} ls₀ v ∧
    (d.webhookEndpointId, endpoint) ∈ v.service.endpoints ∧
    settings.signature endpoint.signingSecret a.request.timestamp a.request.envelope = some a.request.signature

/-- No delivery has succeeded but by such a response. -/
theorem answered_of_succeeded {ok : System → System.Label → Prop} {ls : List System.Label}
    (h : Runs.Run (System.step settings) ok {} ls s) {id : ℕ} {d : Delivery} (hd : s.service.deliveries.get id = some d)
    (hstatus : d.status = .succeeded) :
    ∃ ls₁ l ls₂ u a, ls = ls₁ ++ l :: ls₂ ∧ Runs.Run (System.step settings) ok {} ls₁ u ∧
      Answered settings ok ls₁ u l id d a := by
  have hinit : ¬ ∃ d, ({} : System).service.deliveries.get id = some d ∧ d.status = .succeeded := fun ⟨d, hd, _⟩ => by cases hd
  obtain ⟨ls₁, l, ls₂, u, v, hls, hrun, hstep, hrest, hno, dv, hdv, hsucceeded⟩ :=
    h.turns (P := fun s => ∃ d, s.service.deliveries.get id = some d ∧ d.status = .succeeded) hinit ⟨d, hd, hstatus⟩
  have hinv : Inv settings u := inv_run hrun inv_init
  obtain ⟨du, hdu⟩ : ∃ du, u.service.deliveries.get id = some du := by
    cases hdu : u.service.deliveries.get id with
    | some du => exact ⟨du, rfl⟩
    | none =>
      obtain ⟨runId, run, endpointIds, event, endpointId, -, -, -, rfl, -⟩ := new_step hinv hstep hdv hdu
      cases hsucceeded
  have hbefore : du.status ≠ .succeeded := fun h => hno ⟨du, hdu, h⟩
  obtain ⟨dv', hdv', hcase⟩ := moved_step hinv hstep hdu
  rw [hdv] at hdv'
  cases hdv'
  rcases hcase with ⟨-, rfl⟩ | ⟨e, stage, hl, hmoved, -⟩
  · exact absurd hsucceeded hbefore
  obtain ⟨a, clock, stored, status, rfl, hok, hsending, hid, hadu⟩ := moved_to_succeeded hmoved hbefore hsucceeded
  have habout : d.about = a.delivery.about := by
    obtain ⟨d', hd', habout, -⟩ := (count_run hrest (inv_step hinv hstep)).1 dv hdv
    rw [hd] at hd'
    cases hd'
    rw [habout, moved_about hmoved, hadu]
  simp only [Delivery.about, Prod.mk.injEq] at habout
  obtain ⟨hendpoint, hevent, hrunId, -⟩ := habout
  have hflying : u.stage.attempt? = some a := by rw [hsending]; rfl
  have hflight := hinv.flight a hflying
  obtain ⟨ls₀, l₀, rest, v₀, w, hls₀, hrun₀, hstep₀, -, hnot, hnow⟩ :=
    hrun.turns (P := fun v => v.stage.attempt? = some a) (grounded (.inr rfl) a) hflying
  refine ⟨ls₁, l, ls₂, u, a, hls, hrun, ⟨clock, stored, status, hl, hok⟩, hsending, hid ▸ hflight.sends.1, ?_, ?_⟩
  · obtain ⟨run, hrun, hmem, heq⟩ := hflight.own
    exact ⟨heq.trans hevent.symm, run, hrunId ▸ hrun, hmem⟩
  · have hat := (Service.delivery_eq_some.mp hflight.there).2
    exact ⟨ls₀, l₀ :: rest, v₀, a.endpoint, hls₀, hrun₀, (hendpoint.trans hat) ▸ flying_step hstep₀ hnot hnow,
      hflight.signed⟩

/-! ### Ends -/

namespace System

/-- The update that ends an attempt that has failed does not fail. -/
def Ends (settings : Settings) (s : System) : Label → Prop
  | .action a => s.fails settings a → a.stored.ended
  | .crash _ => True

/-- A delivery is under way only in the attempt in progress, or while no dispatcher runs. -/
def Settled (s : System) : Prop :=
  ∀ id d, s.service.deliveries.get id = some d → d.status = .delivering →
    s.stage = .stopped ∨ ∃ a, s.stage.attempt? = some a ∧ a.deliveryId = id

theorem settled_take (hs : Inv settings s) (hsettled : s.Settled) {e : Action} (h : s.take settings e = some t)
    (hends : s.fails settings e → e.stored.ended) : t.Settled := fun id d' hd' hdelivering => by
  have hfailed : ∀ {clock fault} {d : Delivery}, s.fails settings e = true →
      (d.failed settings clock e.stored id fault).status ≠ .delivering := fun {clock fault d} hfails => by
    rcases failed_cases settings clock e.stored id fault d with ⟨-, hno⟩ | ⟨-, -, h | h⟩
    · rw [hends hfails] at hno
      cases hno
    · rw [h]; nofun
    · rw [h]; nofun
  cases hd : s.service.deliveries.get id with
  | none =>
    obtain ⟨runId, run, endpointIds, event, endpointId, -, -, -, rfl, -⟩ := (taken hs h).new id d' hd' hd
    cases hdelivering
  | some d =>
    obtain ⟨d'', hd'', hmoved⟩ := (taken hs h).moved id d hd
    rw [hd'] at hd''
    cases hd''
    revert hdelivering
    generalize hstage : t.stage = stage at hmoved
    intro hdelivering
    cases hmoved with
    | stays hflying hstopped =>
      rcases hsettled id d' hd hdelivering with hstop | ⟨a, ha, hid⟩
      · exact .inl (hstopped hstop hdelivering)
      · rcases hflying a ha hid with hgoes | hstop
        · exact .inr ⟨a, hgoes, hid⟩
        · exact .inl hstop
    | begins => exact .inr ⟨_, rfl, rfl⟩
    | spoils _ _ _ _ _ hfails => exact absurd hdelivering (hfailed hfails)
    | fails _ _ _ hfails => exact absurd hdelivering (hfailed hfails)
    | succeeds | cancelled | recovered | redelivered => cases hdelivering

theorem settled_step (hs : Inv settings s) (hsettled : s.Settled) {l : Label} (h : s.step settings l = some t)
    (hends : s.Ends settings l) : t.Settled := by
  rcases step_cases h with ⟨-, rfl⟩ | ⟨a, u, -, hu, ⟨rfl, rfl⟩ | rfl⟩
  · exact fun _ _ _ _ => .inl rfl
  · exact settled_take hs hsettled hu hends
  · exact fun _ _ _ _ => .inl rfl

/-- What fails is the attempt in progress, or the one that begins. -/
theorem fails_cases {e : Action} (h : s.take settings e = some t) (hfails : s.fails settings e) :
    (∃ a, s.stage.attempt? = some a) ∨ ∃ clock stored picked, e = .dispatch clock stored ∧ s.stage = .idle ∧
      dispatchOne clock.now s.service = some picked ∧ stored.begun = true := by
  cases e with
  | dispatch clock stored =>
    unfold fails at hfails
    dsimp only at hfails
    split at hfails
    · rename_i picked hidle hpicked
      exact .inr ⟨clock, stored, picked, rfl, hidle, hpicked, (Bool.and_eq_true_iff.mp hfails).1⟩
    · cases hfails
  | resolved fault clock stored =>
    unfold take at h
    dsimp only at h
    split at h
    · rename_i a ha
      exact .inl ⟨a, by rw [ha]; rfl⟩
    · cases h
  | response outcome clock stored =>
    unfold take at h
    dsimp only at h
    split at h
    · rename_i a ha
      exact .inl ⟨a, by rw [ha]; rfl⟩
    · cases h
  | _ => cases hfails

/-- The attempt in progress ends there. -/
theorem take_of_fails {e : Action} (h : s.take settings e = some t) {a : Attempt} (ha : s.stage.attempt? = some a)
    (hfails : s.fails settings e) : ∃ fault, t = fail settings e.clock e.stored a fault s.service := by
  have hattempt : ∀ {b : Attempt}, s.stage = .resolving b ∨ s.stage = .sending b → b = a := fun hb => by
    rcases hb with hb | hb <;> rw [hb] at ha <;> exact Option.some.inj ha
  unfold take at h
  cases e with
  | dispatch clock stored =>
    dsimp only at h
    split at h
    · rename_i hidle
      rw [hidle] at ha
      cases ha
    · cases h
  | resolved fault clock stored =>
    dsimp only at h
    split at h
    · rename_i b hb
      cases hattempt (.inl hb)
      obtain ⟨fault, rfl⟩ := Option.isSome_iff_exists.mp hfails
      exact ⟨fault, (Option.some.inj h).symm⟩
    · cases h
  | response outcome clock stored =>
    dsimp only at h
    split at h
    · rename_i b hb
      cases hattempt (.inr hb)
      cases h
      unfold conclude
      split
      · exact ⟨_, rfl⟩
      · split
        · rename_i hstatus
          split
          · rename_i hstored
            simp [fails, hstatus, hstored] at hfails
          · exact ⟨_, rfl⟩
        · exact ⟨_, rfl⟩
    · cases h
  | _ => cases hfails

/-- An action that leads to the idle dispatcher leaves a delivery under way exactly if it
ends an attempt that has failed, and that update fails. -/
theorem settled_iff (hs : Inv settings s) (hsettled : s.Settled) {e : Action} (h : s.take settings e = some t)
    (hidle : t.stage = .idle) :
    (∀ id d, t.service.deliveries.get id = some d → d.status ≠ .delivering) ↔ (s.fails settings e → e.stored.ended) := by
  refine ⟨fun hnone hfails => ?_, fun hends id d hd hdelivering => ?_⟩
  · by_contra hended
    rcases fails_cases h hfails with ⟨a, ha⟩ | ⟨clock, stored, picked, rfl, hdispatch, hpicked, hbegun⟩
    · have hflight := hs.flight a ha
      obtain ⟨fault, rfl⟩ := take_of_fails h ha hfails
      have hget := get_retryOrExhaust settings hflight.there e.clock e.stored fault a.deliveryId
      rw [if_pos rfl, Delivery.failed, if_pos hended] at hget
      exact hnone _ _ hget hflight.delivering
    · have hget := Dict.get_of_mem hs.numbered.nodup (mem_of_due hpicked).1
      obtain ⟨d', hd', hmoved⟩ := (taken hs h).moved _ _ hget
      refine hnone _ d' hd' ?_
      generalize hstage : t.stage = stage at hmoved
      cases hmoved with
      | stays _ _ hstarts => exact absurd (by simp [starts, hdispatch, hpicked, hbegun]) hstarts
      | begins => rfl
      | spoils => exact congrArg Delivery.status (if_pos hended)
      | fails ha => rw [hdispatch] at ha; cases ha
  · rcases settled_take hs hsettled h hends id d hd hdelivering with hstop | ⟨a, ha, -⟩
    · rw [hidle] at hstop
      cases hstop
    · exact absurd ha (grounded (.inl hidle) a)

end System

/-- In every history in which no update that ends a failed attempt fails: the count of a
delivery is the number of the attempts started, and never falls; what has succeeded stays,
and was answered so; and an idle dispatcher has no delivery under way. A step breaks the
last exactly if such an update fails in it. -/
theorem deliveries_settle {ls : List System.Label}
    (h : Runs.Run (System.step settings) (System.Ends settings) {} ls s) :
    (∀ id d, s.service.deliveries.get id = some d →
      d.attemptCount = attemptsStarted settings id {} ls ∧
      (d.status = .succeeded → ∃ ls₁ l ls₂ u a, ls = ls₁ ++ l :: ls₂ ∧
        Runs.Run (System.step settings) (System.Ends settings) {} ls₁ u ∧
        Answered settings (System.Ends settings) ls₁ u l id d a) ∧
      ∀ l t, s.step settings l = some t → ∃ d', t.service.deliveries.get id = some d' ∧
        d.attemptCount ≤ d'.attemptCount ∧ (d.status = .succeeded → d' = d)) ∧
    (s.stage = .idle → ∀ id d, s.service.deliveries.get id = some d → d.status ≠ .delivering) ∧
    ∀ e t, s.take settings e = some t → t.stage = .idle →
      ((∀ id d, t.service.deliveries.get id = some d → d.status ≠ .delivering) ↔
        (s.fails settings e → e.stored.ended)) := by
  obtain ⟨hinv, hsettled⟩ : Inv settings s ∧ s.Settled :=
    h.invariant (I := fun s => Inv settings s ∧ s.Settled)
      (fun s l u hs hends hstep => ⟨inv_step hs.1 hstep, System.settled_step hs.1 hs.2 hstep hends⟩)
      ⟨inv_init, fun _ _ hd => by cases hd⟩
  refine ⟨fun id d hd => ⟨(count_run h inv_init).2 rfl d hd, answered_of_succeeded h hd, fun l t hstep => ?_⟩,
    fun hidle id d hd hdelivering => ?_, fun e t hstep hidle => System.settled_iff hinv hsettled hstep hidle⟩
  · obtain ⟨d', hd', hcase⟩ := moved_step hinv hstep hd
    refine ⟨d', hd', ?_⟩
    rcases hcase with ⟨-, rfl⟩ | ⟨a, stage, -, hmoved, -⟩
    · exact ⟨le_rfl, fun _ => rfl⟩
    · exact ⟨(moved_count hmoved).symm ▸ Nat.le_add_right .., moved_succeeded hinv hmoved⟩
  · rcases hsettled id d hd hdelivering with hstop | ⟨a, ha, -⟩
    · rw [hidle] at hstop
      cases hstop
    · exact absurd ha (grounded (.inl hidle) a)

/-! ### An update that fails -/

instance (s : System) (l : System.Label) : Decidable (s.Ends settings l) :=
  match l with
  | .action a => inferInstanceAs (Decidable (s.fails settings a = true → a.stored.ended = true))
  | .crash _ => isTrue trivial

namespace Lost

def trusting : Settings where
  normalize := id
  signature secret timestamp _ := some (secret ++ timestamp)

/-- A second and a fraction after the start of a day. -/
def moment (second microsecond : ℕ) : Datetime := .ofNumbers 2026 1 1 0 0 second microsecond

def clock : Clock := { now := (moment 1 0).iso }

/-- The first attempt of a delivery comes to its request. -/
def attempt : List System.Label :=
  [.action (.createEndpoint { tenantId := "tenant", url := "https://receiver", eventTypes := ["*"], signingSecret := "key" }),
    .action (.createRun "run" { tenantId := "tenant", phase := "INGEST", webhookEndpointIds := [1] }),
    .action (.append "run" [1] { eventId := "evt", seq := 0, type := "run.started.v1", occurredAt := moment 0 0 }),
    .action (.start none (moment 0 0).iso), .action (.dispatch clock {}), .action (.resolved none clock {})]

/-- It has no response, and the update that says so fails. -/
def lost : List System.Label := attempt ++ [.action (.response (.error ⟨"ReadTimeout", "", none⟩) clock { ended := false })]

theorem stuck : (Runs.exec (System.step trusting) Runs.Free {} lost).any (fun s =>
    (s.stage matches .idle) && (s.service.deliveries.get 1).any (·.status = .delivering)) = true := by decide +kernel

/-- The delivery is under way, and no attempt is. -/
theorem idle_and_delivering :
    ¬ ∀ (ls : List System.Label) (s : System), Runs.Run (System.step trusting) Runs.Free {} ls s → s.stage = .idle →
      ∀ id d, s.service.deliveries.get id = some d → d.status ≠ .delivering := fun h => by
  obtain ⟨s, hs, hstuck⟩ := (Option.any_eq_true _ _).mp stuck
  obtain ⟨hidle, hdelivery⟩ := Bool.and_eq_true_iff.mp hstuck
  obtain ⟨d, hd, hdelivering⟩ := (Option.any_eq_true _ _).mp hdelivery
  refine h lost s (Runs.run_of_exec hs) ?_ 1 d hd (of_decide_eq_true hdelivering)
  split at hidle
  · assumption
  · cases hidle

def answered : List System.Label := attempt ++ [.action (.response (.ok 200) clock {})]

theorem answers : (Runs.exec (System.step trusting) (System.Ends trusting) {} answered).any (fun s =>
    (s.service.deliveries.get 1).any (·.status = .succeeded)) = true := by decide +kernel

/-- With a response the delivery has succeeded, by the one attempt that was started. -/
theorem answered_settles : ∃ (s : System) (d : Delivery), s.service.deliveries.get 1 = some d ∧ d.status = .succeeded ∧
    d.attemptCount = attemptsStarted trusting 1 {} answered ∧ ∃ ls₁ l ls₂ u a, answered = ls₁ ++ l :: ls₂ ∧
      Runs.Run (System.step trusting) (System.Ends trusting) {} ls₁ u ∧
      Answered trusting (System.Ends trusting) ls₁ u l 1 d a := by
  obtain ⟨s, hs, hdelivery⟩ := (Option.any_eq_true _ _).mp answers
  obtain ⟨d, hd, hsucceeded⟩ := (Option.any_eq_true _ _).mp hdelivery
  obtain ⟨hcount, hanswered, -⟩ := (deliveries_settle (Runs.run_of_exec hs)).1 1 d hd
  exact ⟨s, d, hd, of_decide_eq_true hsucceeded, hcount, hanswered (of_decide_eq_true hsucceeded)⟩

end Lost

end AutomlApi.Webhooks
