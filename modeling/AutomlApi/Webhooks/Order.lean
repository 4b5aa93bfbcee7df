import AutomlApi.Webhooks.Lifecycle

/-! The order in which the events of a run are sent to an endpoint. The dispatcher takes the
first unfinished delivery in the order of the texts of their times, and so in the order of
the events where the texts are in the order of the times. -/

namespace AutomlApi.Webhooks

variable {settings : Settings} {s t u : System}

/-- The delivery `x` is of an earlier event of the run that the delivery `d` is of. -/
def Earlier (m : Service) (x d : Delivery) : Prop :=
  x.webhookEndpointId = d.webhookEndpointId ∧ x.runId = d.runId ∧ ∃ run ∈ m.runs.get d.runId,
    ∃ e ∈ run.events, ∃ e' ∈ run.events, e.eventId = x.eventId ∧ e'.eventId = d.eventId ∧ e.seq < e'.seq

instance (m : Service) (x d : Delivery) : Decidable (Earlier m x d) := inferInstanceAs (Decidable (_ ∧ _ ∧ _))

/-- The run and the event of an append. -/
def Action.appended : Action → Option (String × Event)
  | .append runId _ event => some (runId, event)
  | _ => none

def Action.byHand : Action → Bool
  | .redeliver .. => true
  | _ => false

namespace System

/-- Nothing is delivered again by hand, and an event is later than those of its run. -/
def Ticks (s : System) (l : Label) : Prop :=
  l.act?.any Action.byHand = false ∧ ∀ entry ∈ l.act?.bind Action.appended, ∀ run ∈ s.service.runs.get entry.1,
    ∀ other ∈ run.events, other.occurredAt < entry.2.occurredAt

/-- And no event of the run is at a whole second, and in the same second as the new one. -/
def Spaced (s : System) (l : Label) : Prop :=
  s.Ticks l ∧ ∀ entry ∈ l.act?.bind Action.appended, ∀ run ∈ s.service.runs.get entry.1, ∀ other ∈ run.events,
    ¬ (other.occurredAt.toSecond = entry.2.occurredAt.toSecond ∧ other.occurredAt.microsecond = 0)

instance (s : System) (l : Label) : Decidable (s.Ticks l) := inferInstanceAs (Decidable (_ ∧ _))

instance (s : System) (l : Label) : Decidable (s.Spaced l) := inferInstanceAs (Decidable (_ ∧ _))

/-- The events of a run are in the order of their numbers and of the texts of their times,
and a delivery is of an event of its run. -/
structure Logged (s : System) : Prop where
  ordered : ∀ runId run, s.service.runs.get runId = some run → run.events.Pairwise fun e e' =>
    e.seq < e'.seq ∧ e.eventId ≠ e'.eventId ∧ e.occurredAt.iso < e'.occurredAt.iso
  counted : ∀ runId run, s.service.runs.get runId = some run → ∀ e ∈ run.events, e.seq ≤ run.events.length
  own : ∀ id d, s.service.deliveries.get id = some d → ∃ run e, s.service.runs.get d.runId = some run ∧ e ∈ run.events ∧
    e.eventId = d.eventId ∧ d.createdAt = e.occurredAt.iso

theorem logged_init : Logged {} :=
  ⟨fun _ _ h => (by cases h), fun _ _ h => (by cases h), fun _ _ h => (by cases h)⟩

theorem logged_take (hs : Inv settings s) (hlogged : s.Logged) {e : Action} (h : s.take settings e = some t)
    (hspaced : s.Spaced (.action e)) : t.Logged := by
  have htaken := taken hs h
  refine ⟨fun runId run' hrun' => ?_, fun runId run' hrun' => ?_, fun id d' hd' => ?_⟩
  · rcases htaken.events.grown runId run' hrun' with ⟨run, hrun, heq⟩ | heq | ⟨ids, event, run, rfl, hrun, hfresh, heq⟩
    · exact heq ▸ hlogged.ordered runId run hrun
    · exact heq ▸ .nil
    · rw [heq, List.pairwise_append]
      refine ⟨hlogged.ordered runId run hrun, List.pairwise_singleton .., fun other hother e he => ?_⟩
      cases List.mem_singleton.mp he
      have hlt := hspaced.1.2 (runId, event) rfl run hrun other hother
      have hspace := hspaced.2 (runId, event) rfl run hrun other hother
      exact ⟨Nat.lt_succ_of_le (hlogged.counted runId run hrun other hother), hfresh other hother,
        (Datetime.iso_lt_iff_of_lt hlt).mpr hspace⟩
  · rcases htaken.events.grown runId run' hrun' with ⟨run, hrun, heq⟩ | heq | ⟨ids, event, run, rfl, hrun, hfresh, heq⟩
    · exact heq ▸ hlogged.counted runId run hrun
    · exact heq ▸ nofun
    · rw [heq, List.length_append, List.length_singleton]
      intro e he
      rcases List.mem_append.mp he with he | he
      · exact (hlogged.counted runId run hrun e he).trans (Nat.le_succ _)
      · cases List.mem_singleton.mp he
        exact le_rfl
  · cases hd : s.service.deliveries.get id with
    | none =>
      obtain ⟨runId, run, ids, event, endpointId, -, -, -, rfl, run', hrun', hmem⟩ := htaken.new id d' hd' hd
      exact ⟨run', _, hrun', hmem, rfl, rfl⟩
    | some d =>
      obtain ⟨d'', hd'', hmoved⟩ := htaken.moved id d hd
      rw [hd'] at hd''
      cases hd''
      obtain ⟨run, e, hrun, he, hid, hcreated⟩ := hlogged.own id d hd
      obtain ⟨run', hrun', hevents⟩ := htaken.events.kept _ run hrun
      have habout := moved_about hmoved
      simp only [Delivery.about, Prod.mk.injEq] at habout
      obtain ⟨-, hevent, hrunId, hat⟩ := habout
      exact ⟨run', e, hrunId ▸ hrun', hevents.subset he, hid.trans hevent.symm, hat.trans hcreated⟩

theorem logged_step (hs : Inv settings s) (hlogged : s.Logged) {l : Label} (h : s.step settings l = some t)
    (hspaced : s.Spaced l) : t.Logged := by
  rcases step_cases h with ⟨-, rfl⟩ | ⟨e, u, hl, hu, hcase⟩
  · exact ⟨hlogged.ordered, hlogged.counted, hlogged.own⟩
  · have hspaced : s.Spaced (.action e) := by
      unfold Spaced Ticks at hspaced ⊢
      rw [hl] at hspaced
      exact hspaced
    have hu := logged_take hs hlogged hu hspaced
    rcases hcase with ⟨-, rfl⟩ | rfl
    · exact hu
    · exact ⟨hu.ordered, hu.counted, hu.own⟩

end System

/-! ### The queue of an endpoint -/

instance : Std.Total Before where
  total a b := by
    rcases lt_trichotomy a.2.createdAt b.2.createdAt with h | h | h
    · exact .inl (.inl h)
    · rcases le_total (deliveryId a.1) (deliveryId b.1) with h' | h'
      · exact .inl (.inr ⟨h, h'⟩)
      · exact .inr (.inr ⟨h.symm, h'⟩)
    · exact .inr (.inl h)

instance : IsTrans (ℕ × Delivery) Before where
  trans a b c := by
    rintro (h | ⟨h, h'⟩) (k | ⟨k, k'⟩)
    · exact .inl (h.trans k)
    · exact .inl (k ▸ h)
    · exact .inl (h ▸ k)
    · exact .inr ⟨h.trans k, h'.trans k'⟩

/-- What comes before the chosen delivery in the order of the texts, and is of its run, is
finished. -/
theorem finished_before {now : String} {m : Service} {picked : Picked} (h : dispatchOne now m = some picked) {n : ℕ}
    {x : Delivery} (hx : (n, x) ∈ m.deliveries) (hat : x.webhookEndpointId = picked.endpointId)
    (hrun : x.runId = picked.delivery.runId) (hlt : x.createdAt < picked.delivery.createdAt) :
    x.status.unfinished = false := by
  obtain ⟨-, -, -, before, after, heq, hbefore⟩ := due_eq_some (dispatchOne_eq_some h).2.2
  have hmem : (n, x) ∈ (m.deliveriesOf picked.endpointId).insertionSort Before :=
    (List.mem_insertionSort Before).mpr (List.mem_filter.mpr ⟨hx, decide_eq_true hat⟩)
  have hsorted := List.pairwise_insertionSort Before (m.deliveriesOf picked.endpointId)
  rw [heq] at hmem hsorted
  rcases List.mem_append.mp hmem with hmem | hmem
  · exact hbefore _ hmem hrun
  · rcases List.mem_cons.mp hmem with hself | hafter
    · have hself : x = picked.delivery := congrArg Prod.snd hself
      exact absurd hlt (hself ▸ lt_irrefl _)
    · have hlater := List.rel_of_pairwise_cons (List.pairwise_append.mp hsorted).2.1 hafter
      rcases hlater with hlater | ⟨hsame, -⟩
      · exact absurd hlt (lt_asymm hlater)
      · exact absurd hlt (hsame ▸ lt_irrefl _)

/-! ### Attempts in order -/

section

variable {events : List Event} {e e' : Event}

theorem eq_of_eventId (h : events.Pairwise fun e e' => e.seq < e'.seq ∧ e.eventId ≠ e'.eventId ∧
    e.occurredAt.iso < e'.occurredAt.iso) (he : e ∈ events) (he' : e' ∈ events) (hid : e.eventId = e'.eventId) : e = e' :=
  List.inj_on_of_nodup_map (List.pairwise_map.mpr (h.imp fun h => h.2.1)) he he' hid

/-- An event of a smaller number is earlier. -/
theorem iso_lt_of_seq_lt (h : events.Pairwise fun e e' => e.seq < e'.seq ∧ e.eventId ≠ e'.eventId ∧
    e.occurredAt.iso < e'.occurredAt.iso) (he : e ∈ events) (he' : e' ∈ events) (hlt : e.seq < e'.seq) :
    e.occurredAt.iso < e'.occurredAt.iso := by
  obtain ⟨i, hi, rfl⟩ := List.getElem_of_mem he
  obtain ⟨j, hj, rfl⟩ := List.getElem_of_mem he'
  rw [List.pairwise_iff_getElem] at h
  rcases Nat.lt_trichotomy i j with hij | rfl | hij
  · exact (h i j hi hj hij).2.2
  · exact absurd hlt (lt_irrefl _)
  · exact absurd hlt (lt_asymm (h j i hj hi hij).1)

end

/-- When an attempt of a delivery is started, the earlier ones of its run are finished. -/
theorem earlier_finished (hs : Inv settings s) (hlogged : s.Logged) {l : System.Label} {id : ℕ}
    (hstarts : l.act?.bind s.starts = some id) {d : Delivery} (hd : s.service.deliveries.get id = some d) {n : ℕ}
    {x : Delivery} (hx : s.service.deliveries.get n = some x) (hearlier : Earlier s.service x d) :
    x.status.unfinished = false := by
  obtain ⟨now, picked, hpicked, -, hget⟩ := starts_cases hs hstarts
  rw [hd] at hget
  cases hget
  obtain ⟨hat, hrunId, run, hrun, e, he, e', he', hid, hid', hlt⟩ := hearlier
  have hordered := hlogged.ordered _ run hrun
  have hcreated : ∀ {n y e}, s.service.deliveries.get n = some y → y.runId = picked.delivery.runId → e ∈ run.events →
      e.eventId = y.eventId → y.createdAt = e.occurredAt.iso := fun hy hyrun he hid => by
    obtain ⟨run', e₁, hrun', he₁, hid₁, hcreated⟩ := hlogged.own _ _ hy
    rw [hyrun, hrun] at hrun'
    cases hrun'
    rw [eq_of_eventId hordered he he₁ (hid.trans hid₁.symm), hcreated]
  refine finished_before hpicked (Dict.mem_of_get hx) (hat.trans (mem_of_due hpicked).2) hrunId ?_
  rw [hcreated hx hrunId he hid, hcreated hd rfl he' hid']
  exact iso_lt_of_seq_lt hordered he he' hlt

theorem finished_run {ls : List System.Label} (h : Runs.Run (System.step settings) System.Spaced s ls t)
    (hs : Inv settings s) {id : ℕ} {d : Delivery} (hd : s.service.deliveries.get id = some d)
    (hfinished : d.status.unfinished = false) : t.service.deliveries.get id = some d := by
  refine (h.invariant (I := fun s => Inv settings s ∧ s.service.deliveries.get id = some d)
    (fun s l u hs hspaced hstep => ⟨inv_step hs.1 hstep, ?_⟩) ⟨hs, hd⟩).2
  obtain ⟨d', hd', ⟨-, rfl⟩ | ⟨a, stage, hl, hmoved, -⟩⟩ := moved_step hs.1 hstep hs.2
  · exact hd'
  · rcases moved_finished hs.1 hmoved hfinished with rfl | ⟨endpointId, expired, now, rfl, -⟩
    · exact hd'
    · have hhand := hspaced.1.1
      rw [hl] at hhand
      cases hhand

/-- What a later delivery is about comes after all the events that are there. -/
theorem new_run {ok : System → System.Label → Prop} {ls : List System.Label}
    (h : Runs.Run (System.step settings) ok s ls t) (hs : Inv settings s) :
    EventsKept s.service t.service ∧ ∀ id d, t.service.deliveries.get id = some d → s.service.deliveries.get id = none →
      ∀ run, s.service.runs.get d.runId = some run → ∀ e ∈ run.events, e.eventId ≠ d.eventId := by
  refine (h.invariant (I := fun t => Inv settings t ∧ EventsKept s.service t.service ∧
    ∀ id d, t.service.deliveries.get id = some d → s.service.deliveries.get id = none →
      ∀ run, s.service.runs.get d.runId = some run → ∀ e ∈ run.events, e.eventId ≠ d.eventId)
    (fun v l u hv _ hstep => ⟨inv_step hv.1 hstep, ?_, fun id d hd hnone run hrun e he => ?_⟩)
    ⟨hs, .of_eq rfl, fun _ _ hd hnone => absurd (hnone.symm.trans hd) nofun⟩).2
  · intro runId run hrun
    obtain ⟨run', hrun', hkept⟩ := hv.2.1 runId run hrun
    rcases System.step_cases hstep with ⟨-, rfl⟩ | ⟨a, w, -, hw, hcase⟩
    · exact ⟨run', hrun', hkept⟩
    · obtain ⟨run'', hrun'', hkept'⟩ := (taken hv.1 hw).events.kept runId run' hrun'
      refine ⟨run'', ?_, hkept.trans hkept'⟩
      rcases hcase with ⟨-, rfl⟩ | rfl <;> exact hrun''
  · cases hold : v.service.deliveries.get id with
    | none =>
      obtain ⟨runId, run', ids, event, endpointId, -, hrun', hfresh, rfl, -⟩ := new_step hv.1 hstep hd hold
      obtain ⟨run'', hrun'', hkept⟩ := hv.2.1 runId run hrun
      rw [hrun'] at hrun''
      cases hrun''
      exact hfresh e (hkept.subset he)
    | some d' =>
      obtain ⟨d'', hd'', habout, -⟩ := (@count_step settings v u hv.1 l hstep id).1 d' hold
      rw [hd] at hd''
      cases hd''
      simp only [Delivery.about, Prod.mk.injEq] at habout
      obtain ⟨-, hevent, hrunId, -⟩ := habout
      exact hevent ▸ hv.2.2 id d' hold hnone run (hrunId ▸ hrun) e he

/-- In every history without redeliveries in which the events of a run are appended at
increasing times, none at a whole second and then another in the same second: an attempt of
a delivery is started only when all earlier ones of its run have succeeded or are
exhausted, and no earlier one is attempted after it. -/
theorem attempted_in_order {ls : List System.Label} (h : Runs.Run (System.step settings) System.Spaced {} ls s)
    {l : System.Label} {id : ℕ} (hstarts : l.act?.bind s.starts = some id) {d : Delivery}
    (hd : s.service.deliveries.get id = some d) :
    (∀ n x, s.service.deliveries.get n = some x → Earlier s.service x d →
      x.status = .succeeded ∨ x.status = .exhausted) ∧
    ∀ ms u (l' : System.Label) id' d', Runs.Run (System.step settings) System.Spaced s (l :: ms) u →
      l'.act?.bind u.starts = some id' → u.service.deliveries.get id' = some d' → ¬ Earlier u.service d' d := by
  obtain ⟨hinv, hlogged⟩ : Inv settings s ∧ s.Logged := h.invariant (I := fun s => Inv settings s ∧ s.Logged)
    (fun s l u hs hspaced hstep => ⟨inv_step hs.1 hstep, System.logged_step hs.1 hs.2 hstep hspaced⟩)
    ⟨inv_init, System.logged_init⟩
  refine ⟨fun n x hx hearlier => ?_, fun ms u l' id' d' hrun hstarts' hd' hearlier => ?_⟩
  · have hfinished := earlier_finished hinv hlogged hstarts hd hx hearlier
    cases hx : x.status with
    | succeeded => exact .inl rfl
    | exhausted => exact .inr rfl
    | pending | delivering | retrying => rw [hx] at hfinished; cases hfinished
  · obtain ⟨hat, hrunId, run, hget, e, he, e', he', hid, hid', hlt⟩ := hearlier
    have hordered : run.events.Pairwise _ := (hrun.invariant (I := fun s => Inv settings s ∧ s.Logged)
      (fun s l u hs hspaced hstep => ⟨inv_step hs.1 hstep, System.logged_step hs.1 hs.2 hstep hspaced⟩)
      ⟨hinv, hlogged⟩).2.ordered _ run hget
    obtain ⟨hkept, hnew⟩ := new_run hrun hinv
    -- the events that are there when the first attempt is started, and that of the delivery
    obtain ⟨run₀, e₀, hget₀, he₀, hid₀, -⟩ := hlogged.own id d hd
    obtain ⟨run', hget', hevents⟩ := hkept _ run₀ hget₀
    rw [hget] at hget'
    cases hget'
    cases eq_of_eventId hordered he' (hevents.subset he₀) (hid'.trans hid₀.symm)
    cases hx : s.service.deliveries.get id' with
    | some x =>
      obtain ⟨d'', hd'', habout, -⟩ := (count_run hrun hinv).1 x hx
      rw [hd'] at hd''
      cases hd''
      simp only [Delivery.about, Prod.mk.injEq] at habout
      obtain ⟨habout, hevent, hrunId', -⟩ := habout
      obtain ⟨run₁, e₁, hget₁, he₁, hid₁, -⟩ := hlogged.own id' x hx
      rw [← hrunId', hrunId, hget₀] at hget₁
      cases hget₁
      cases eq_of_eventId hordered he (hevents.subset he₁) (hid.trans (hevent.trans hid₁.symm))
      have hearlier : Earlier s.service x d :=
        ⟨habout.symm.trans hat, hrunId'.symm.trans hrunId, run₀, hget₀, e, he₁, e', he₀, hid₁, hid₀, hlt⟩
      have hfinished := earlier_finished hinv hlogged hstarts hd hx hearlier
      have hsame := finished_run hrun hinv hx hfinished
      obtain ⟨now, picked, hpicked, -, hpickedget⟩ := starts_cases (inv_run hrun hinv) hstarts'
      rw [hsame] at hpickedget
      cases hpickedget
      have hunfinished := (due_eq_some (dispatchOne_eq_some hpicked).2.2).1
      rw [hfinished] at hunfinished
      cases hunfinished
    | none =>
      have hfresh := hnew id' d' hd' hx run₀ (hrunId ▸ hget₀)
      obtain ⟨rest, hrest⟩ := hevents
      rw [← hrest] at he hordered
      rcases List.mem_append.mp he with he | he
      · exact hfresh e he hid
      · exact lt_asymm hlt ((List.pairwise_append.mp hordered).2.2 e' he₀ e he).1

/-! ### A whole second -/

namespace Overtaken

open Lost (trusting moment)

/-- A run with two events, the second one in the same second as the first. -/
def logged (first second : Datetime) : List System.Label :=
  [.action (.createEndpoint { tenantId := "tenant", url := "https://receiver", eventTypes := ["*"], signingSecret := "key" }),
    .action (.createRun "run" { tenantId := "tenant", phase := "INGEST", webhookEndpointIds := [1] }),
    .action (.append "run" [1] { eventId := "evt_1", seq := 0, type := "run.started.v1", occurredAt := first }),
    .action (.append "run" [1] { eventId := "evt_2", seq := 0, type := "run.started.v1", occurredAt := second }),
    .action (.start none (moment 1 0).iso)]

def dispatch : System.Label := .action (.dispatch { now := (moment 1 0).iso } {})

theorem second_first : (Runs.exec (System.step trusting) System.Ticks {} (logged (moment 0 0) (moment 0 500000))).any
    (fun s => dispatch.act?.bind s.starts = some 2 ∧ ((s.service.deliveries.get 1).any fun x =>
      (s.service.deliveries.get 2).any fun d => x.status = .pending ∧ Earlier s.service x d) = true) = true := by
  decide +kernel

/-- The second event has an attempt, and the first one has had none. -/
theorem overtakes :
    ¬ ∀ (ls : List System.Label) (s : System), Runs.Run (System.step trusting) System.Ticks {} ls s →
      ∀ (l : System.Label) id d, l.act?.bind s.starts = some id → s.service.deliveries.get id = some d →
        ∀ n x, s.service.deliveries.get n = some x → Earlier s.service x d →
          x.status = .succeeded ∨ x.status = .exhausted := fun h => by
  obtain ⟨s, hs, hboth⟩ := (Option.any_eq_true _ _).mp second_first
  obtain ⟨hstarts, hfirst⟩ := of_decide_eq_true hboth
  obtain ⟨x, hx, hsecond⟩ := (Option.any_eq_true _ _).mp hfirst
  obtain ⟨d, hd, hlast⟩ := (Option.any_eq_true _ _).mp hsecond
  obtain ⟨hpending, hearlier⟩ := of_decide_eq_true hlast
  rcases h _ s (Runs.run_of_exec hs) dispatch 2 d hstarts hd 1 x hx hearlier with hstatus | hstatus
  · rw [hpending] at hstatus
    cases hstatus
  · rw [hpending] at hstatus
    cases hstatus

def sent : List System.Label :=
  logged (moment 0 1) (moment 0 500000) ++ [dispatch, .action (.resolved none { now := "" } {}),
    .action (.response (.ok 200) { now := "" } {})]

theorem first_sent : (Runs.exec (System.step trusting) System.Spaced {} sent).any
    (fun s => dispatch.act?.bind s.starts = some 2 ∧ ((s.service.deliveries.get 1).any fun x =>
      (s.service.deliveries.get 2).any fun d => Earlier s.service x d) = true) = true := by
  decide +kernel

/-- A microsecond later the first one is sent first. -/
theorem in_order : ∃ (s : System) (x d : Delivery), s.service.deliveries.get 1 = some x ∧
    s.service.deliveries.get 2 = some d ∧ dispatch.act?.bind s.starts = some 2 ∧
    (x.status = .succeeded ∨ x.status = .exhausted) := by
  obtain ⟨s, hs, hboth⟩ := (Option.any_eq_true _ _).mp first_sent
  obtain ⟨hstarts, hfirst⟩ := of_decide_eq_true hboth
  obtain ⟨x, hx, hsecond⟩ := (Option.any_eq_true _ _).mp hfirst
  obtain ⟨d, hd, hearlier⟩ := (Option.any_eq_true _ _).mp hsecond
  exact ⟨s, x, d, hx, hd, hstarts,
    (attempted_in_order (Runs.run_of_exec hs) hstarts hd).1 1 x hx (of_decide_eq_true hearlier)⟩

end Overtaken

end AutomlApi.Webhooks
