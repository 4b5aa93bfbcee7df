import AutomlApi.Webhooks.Outbound

/-! The URLs of registered endpoints. No request changes one, so the check at the registration
speaks for every attempt that comes later: what that check has asked of a URL is not refused
again. What is left to refuse is the port, which only the second check reads, and what the
host resolves to. -/

namespace AutomlApi.Destinations

open Webhooks Runs

variable {client : Client} {profile : Profile} {settings : Settings} {s t : System}

/-! ### URLs are kept -/

/-- Every endpoint has the URL of one that was there before. -/
def UrlsFrom (m m' : Service) : Prop := ∀ p ∈ m'.endpoints, ∃ q ∈ m.endpoints, q.2.url = p.2.url

theorem UrlsFrom.of_eq {m m' : Service} (h : m'.endpoints = m.endpoints) : UrlsFrom m m' :=
  fun p hp => ⟨p, h ▸ hp, rfl⟩

theorem urlsFrom_updateEndpoint (m : Service) (endpointId : ℕ) (patch : Endpoint → Endpoint)
    (hpatch : ∀ endpoint, (patch endpoint).url = endpoint.url) : UrlsFrom m (m.updateEndpoint endpointId patch) := by
  unfold Service.updateEndpoint
  split
  · exact .of_eq rfl
  · rename_i endpoint hget
    intro p hp
    rcases Dict.mem_set hp with rfl | hp
    · exact ⟨(endpointId, endpoint), Dict.mem_of_get hget, (hpatch endpoint).symm⟩
    · exact ⟨p, hp, rfl⟩

theorem urlsFrom_retryOrExhaust (m : Service) (clock : Clock) (stored : Stored) (endpointId id : ℕ) (d : Delivery)
    (fault : Fault) : UrlsFrom m (retryOrExhaust settings clock stored endpointId id d fault m) := by
  unfold retryOrExhaust
  split
  · exact .of_eq rfl
  · split
    · dsimp only
      split
      · have hpaused := urlsFrom_updateEndpoint
          (m.updateDelivery endpointId id (Delivery.exhaust clock id d fault)) endpointId
          (Endpoint.pause clock) fun _ => rfl
        intro p hp
        obtain ⟨q, hq, hurl⟩ := hpaused p hp
        rw [Service.endpoints_updateDelivery] at hq
        exact ⟨q, hq, hurl⟩
      · exact .of_eq (Service.endpoints_updateDelivery ..)
    · exact .of_eq (Service.endpoints_updateDelivery ..)

theorem urlsFrom_deliver (m : Service) (clock : Clock) (stored : Stored) (picked : Picked) :
    UrlsFrom m (deliver settings clock stored picked m).service := by
  have hbegun : (m.updateDelivery picked.endpointId picked.deliveryId (Delivery.begin clock picked.delivery)).endpoints =
      m.endpoints := Service.endpoints_updateDelivery ..
  unfold deliver
  split
  · exact .of_eq rfl
  · dsimp only
    split
    · exact .of_eq hbegun
    · split
      · exact .of_eq hbegun
      · intro p hp
        obtain ⟨q, hq, hurl⟩ := urlsFrom_retryOrExhaust _ _ _ _ _ _ _ p hp
        exact ⟨q, hbegun ▸ hq, hurl⟩

/-- An endpoint comes only from a registration. -/
theorem urls_take (hs : Inv settings s) {e : Action} (h : s.take settings e = some t) :
    UrlsFrom s.service t.service ∨ ∃ endpoint, e = .createEndpoint endpoint ∧
      ∀ p ∈ t.service.endpoints, p ∈ s.service.endpoints ∨ p.2.url = endpoint.url := by
  unfold System.take at h
  cases e with
  | createEndpoint endpoint =>
    cases h
    refine .inr ⟨endpoint, rfl, fun p hp => ?_⟩
    rcases Dict.mem_set hp with rfl | hp
    · exact .inr rfl
    · exact .inl hp
  | createRun runId run =>
    dsimp only at h
    split at h
    · cases h
    · cases h
      exact .inl (.of_eq rfl)
  | enterPhase runId phase =>
    obtain ⟨run, -, rfl⟩ := Option.map_eq_some_iff.mp h
    exact .inl (.of_eq rfl)
  | append runId endpointIds event =>
    obtain ⟨m, hm, rfl⟩ := Option.map_eq_some_iff.mp h
    unfold Service.appendEvent at hm
    split at hm
    · cases hm
    · split at hm
      · cases hm
      · split at hm
        · cases hm
          exact .inl (.of_eq rfl)
        · cases hm
          rename_i run hrun hperm hfresh
          have hlogged : Service.Numbered
              { s.service with runs := s.service.runs.set runId { run with events := run.events ++ [event.numbered run] } } :=
            hs.numbered.of_deliveries rfl rfl
          exact .inl (.of_eq (Service.deliver_all runId run (event.numbered run) hlogged endpointIds).2.1)
  | delete endpointId now | rotate endpointId secret validUntil | enable endpointId =>
    cases h
    refine .inl (urlsFrom_updateEndpoint s.service endpointId _ fun endpoint => ?_)
    split <;> rfl
  | redeliver endpointId id expired now =>
    cases h
    refine .inl (.of_eq ?_)
    unfold System.act Service.redeliver
    dsimp only
    split
    · rfl
    · split
      · rfl
      · exact Service.endpoints_updateDelivery ..
  | start failsAt now =>
    have hframe : ∀ ids, (s.service.recover now ids).endpoints = s.service.endpoints := fun ids =>
      (recover_frame now ids s.service hs.numbered).2.1
    dsimp only at h
    split at h
    · cases h
      exact .inl (.of_eq (hframe _))
    · cases h
      exact .inl (.of_eq (hframe _))
    · cases h
  | dispatch clock stored =>
    dsimp only at h
    split at h
    · cases hpicked : dispatchOne clock.now s.service with
      | none =>
        rw [hpicked] at h
        cases h
        exact .inl (.of_eq rfl)
      | some picked =>
        rw [hpicked] at h
        cases h
        exact .inl (urlsFrom_deliver _ _ _ _)
    · cases h
  | resolved fault clock stored =>
    dsimp only at h
    split at h
    · cases fault with
      | none =>
        cases h
        exact .inl (.of_eq rfl)
      | some fault =>
        cases h
        exact .inl (urlsFrom_retryOrExhaust _ _ _ _ _ _ _)
    · cases h
  | response outcome clock stored =>
    dsimp only at h
    split at h
    · cases h
      unfold conclude
      split
      · exact .inl (urlsFrom_retryOrExhaust _ _ _ _ _ _ _)
      · split
        · split
          · exact .inl (.of_eq (Service.endpoints_updateDelivery ..))
          · exact .inl (urlsFrom_retryOrExhaust _ _ _ _ _ _ _)
        · exact .inl (urlsFrom_retryOrExhaust _ _ _ _ _ _ _)
    · cases h
  | stop stored now =>
    dsimp only at h
    cases ha : s.stage.attempt? with
    | none =>
      rw [ha] at h
      cases h
      exact .inl (.of_eq rfl)
    | some a =>
      rw [ha] at h
      cases h
      unfold cancel
      cases stored with
      | false => exact .inl (.of_eq rfl)
      | true => exact .inl (.of_eq (Service.endpoints_updateDelivery ..))

/-! ### Registrations -/

/-- `create_webhook_endpoint` checks the URL before it registers anything. -/
def Outbound.serve (profile : Profile) (settings : Settings) (o : Outbound client) (l : Label) : Option (Outbound client) :=
  if l.registered.all fun endpoint => (profile.validateRegistration endpoint.url).isOk then o.step profile settings l
  else some o

/-- What the check of a registration has found out about a URL. -/
structure Registered (profile : Profile) (url : String) (parsed : Urls.SplitResult) : Prop where
  passed : profile.parse Profile.deliveryMessages url = .ok parsed
  literal : ∀ a, Address.read ((parsed.hostname profile.tables).getD []) = some a → profile.permitted a = true

theorem registered_of_validate {url : String} (h : (profile.validateRegistration url).isOk) :
    ∃ parsed, Registered profile url parsed := by
  unfold Profile.validateRegistration at h
  split at h
  · cases h
  · rename_i parsed hparsed
    refine ⟨parsed, parse_eq_ok.mpr (parse_eq_ok.mp hparsed), fun a ha => ?_⟩
    rw [ha] at h
    dsimp only at h
    split at h
    · assumption
    · cases h

/-- Every endpoint that is there, and the one of the attempt in progress, has a registered URL. -/
structure AllRegistered (profile : Profile) (s : System) : Prop where
  endpoints : ∀ p ∈ s.service.endpoints, ∃ parsed, Registered profile p.2.url parsed
  attempt : ∀ a, s.stage.attempt? = some a → ∃ parsed, Registered profile a.endpoint.url parsed

theorem allRegistered_step (hs : Inv settings s) (h : AllRegistered profile s) {l : System.Label}
    (hstep : s.step settings l = some t)
    (hnew : ∀ endpoint, l.act? = some (.createEndpoint endpoint) → ∃ parsed, Registered profile endpoint.url parsed) :
    AllRegistered profile t := by
  have hendpoints : ∀ {e u}, l.act? = some e → s.take settings e = some u →
      ∀ p ∈ u.service.endpoints, ∃ parsed, Registered profile p.2.url parsed := by
    intro e u hl hu p hp
    rcases urls_take hs hu with hfrom | ⟨endpoint, rfl, hadded⟩
    · obtain ⟨q, hq, hurl⟩ := hfrom p hp
      exact hurl ▸ h.endpoints q hq
    · rcases hadded p hp with hp | hurl
      · exact h.endpoints p hp
      · exact hurl ▸ hnew endpoint hl
  refine ⟨?_, fun a ha => ?_⟩
  · rcases System.step_cases hstep with ⟨-, rfl⟩ | ⟨e, u, hl, hu, ⟨-, rfl⟩ | rfl⟩
    · exact h.endpoints
    · exact hendpoints hl hu
    · exact hendpoints (u := u) hl hu
  · by_cases hbefore : s.stage.attempt? = some a
    · exact h.attempt a hbefore
    · exact h.endpoints _ (flying_step hstep hbefore ha)

theorem allRegistered_run {ls : List System.Label} {endpoint : Option Endpoint}
    (h : Run (System.step settings) (Registering endpoint) s ls t) (hs : Inv settings s) (hall : AllRegistered profile s)
    (hnew : ∀ other, endpoint = some other → ∃ parsed, Registered profile other.url parsed) :
    AllRegistered profile t :=
  h.invariant_of (J := Inv settings) (fun _ _ _ hs _ hstep => inv_step hs hstep)
    (fun _ _ _ hs hall hok hstep => allRegistered_step hs hall hstep fun other ha => hnew other (hok other ha)) hs hall

/-- In every history, the check of a destination refuses none of the registered URLs but for
its port, for what its host resolves to, or because the client does not take it. -/
theorem registered_destinations {ls : List Label} {o : Outbound client}
    (h : Run (Outbound.serve profile settings) Free {} ls o) {url : String}
    (hurl : (∃ p ∈ o.system.service.endpoints, p.2.url = url) ∨
      ∃ a, o.system.stage.attempt? = some a ∧ a.endpoint.url = url) :
    ∃ parsed, Registered profile url parsed ∧
      ∀ resolution fault, profile.destination client url resolution = .error fault →
        (∃ text, parsed.port profile.tables = .error text ∧ fault = valueError text) ∨
          profile.selected resolution = .error fault ∨ client.url url = .error fault ∨
          ∃ original host, client.copyWithHost original host = .error fault := by
  have hinit : AllRegistered profile ({} : Outbound client).system :=
    ⟨fun p hp => absurd hp List.not_mem_nil, fun a ha => by cases ha⟩
  have hall : Inv settings o.system ∧ AllRegistered profile o.system :=
    h.invariant (I := fun o => Inv settings o.system ∧ AllRegistered profile o.system) (fun o l o' ho _ hstep => by
      unfold Outbound.serve at hstep
      split at hstep
      · rename_i hok
        obtain ⟨ls, hrun⟩ := step_refines hstep
        refine ⟨inv_run hrun ho.1, allRegistered_run hrun ho.1 ho.2 fun endpoint hendpoint => ?_⟩
        rw [hendpoint] at hok
        exact registered_of_validate hok
      · cases hstep
        exact ho) ⟨inv_init, hinit⟩
  obtain ⟨parsed, hparsed⟩ : ∃ parsed, Registered profile url parsed := by
    rcases hurl with ⟨p, hp, rfl⟩ | ⟨a, ha, rfl⟩
    · exact hall.2.endpoints p hp
    · exact hall.2.attempt a ha
  refine ⟨parsed, hparsed, fun resolution fault hfault => ?_⟩
  unfold Profile.destination at hfault
  split at hfault
  · rename_i hasked
    cases hfault
    left
    unfold Profile.asked at hasked
    rw [hparsed.passed] at hasked
    dsimp only at hasked
    split at hasked
    · cases hasked
      exact ⟨_, ‹_›, rfl⟩
    · cases hasked
  · rename_i hselected
    cases hfault
    exact .inr (.inl hselected)
  · split at hfault
    · cases hfault
      exact .inr (.inr (.inl ‹_›))
    · split at hfault
      · cases hfault
        exact .inr (.inr (.inr ⟨_, _, ‹_›⟩))
      · cases hfault

namespace Pinned

theorem registers : (exec (Outbound.serve private10 Lost.trusting) Free ({} : Outbound parts) resolving).any
    (fun o => o.system.service.endpoints.any fun p => p.2.url = endpoint.url) = true := by decide +kernel

theorem registered_endpoint : ∃ parsed, Registered private10 endpoint.url parsed ∧
    ∀ resolution fault, private10.destination parts endpoint.url resolution = .error fault →
      (∃ text, parsed.port private10.tables = .error text ∧ fault = valueError text) ∨
        private10.selected resolution = .error fault ∨ parts.url endpoint.url = .error fault ∨
        ∃ original host, parts.copyWithHost original host = .error fault := by
  obtain ⟨o, ho, hany⟩ := (Option.any_eq_true _ _).mp registers
  obtain ⟨p, hp, hurl⟩ := List.any_eq_true.mp hany
  exact registered_destinations (run_of_exec ho) (.inl ⟨p, hp, of_decide_eq_true hurl⟩)

end Pinned

end AutomlApi.Destinations
