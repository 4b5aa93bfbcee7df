import AutomlApi.Webhooks.Destinations
import AutomlApi.Webhooks.Lifecycle

/-! The dispatcher with the destinations of its requests. It is one of the dispatchers whose
attempts may end in any way, and sends nothing but what its check of the destination lets
through, once an attempt. -/

namespace AutomlApi.Destinations

open Webhooks Runs

/-- A request that was sent, and the resolution that it rests on. -/
structure Post (client : Client) where
  attempt : Attempt
  resolution : Resolution
  destination : Destination client

structure Outbound (client : Client) where
  system : System := {}
  posts : List (Post client) := []

/-- An action of the dispatcher, or the end of a resolution. -/
inductive Move where
  | act (a : Action)
  | resolve (resolution : Resolution) (clock : Clock) (stored : Stored)

inductive Label where
  | move (m : Move)
  | crash (during : Option Move)

variable {client : Client} (profile : Profile) (settings : Settings)

namespace Outbound

def on (o : Outbound client) (s : System) : Outbound client := { o with system := s }

/-- An attempt at a URL that is not to be resolved ends where it begins. -/
def screen (clock : Clock) (stored : Stored) (s : System) : System :=
  match s.stage with
  | .resolving attempt =>
    match profile.asked attempt.endpoint.url with
    | .error fault => fail settings clock stored attempt fault s.service
    | .ok _ => s
  | _ => s

def take (o : Outbound client) : Move → Option (Outbound client)
  | .act (.resolved ..) => none
  | .act (.dispatch clock stored) =>
    (o.system.take settings (.dispatch clock stored)).map fun s => o.on (screen profile settings clock stored s)
  | .act a => (o.system.take settings a).map o.on
  | .resolve resolution clock stored =>
    match o.system.stage with
    | .resolving attempt =>
      match profile.destination client attempt.endpoint.url resolution with
      | .error fault => some (o.on (fail settings clock stored attempt fault o.system.service))
      | .ok destination =>
        some ⟨{ o.system with stage := .sending attempt }, o.posts ++ [⟨attempt, resolution, destination⟩]⟩
    | _ => none

def step (o : Outbound client) : Label → Option (Outbound client)
  | .move m => o.take profile settings m
  | .crash none => some (o.on o.system.halt)
  | .crash (some m) => (o.take profile settings m).map fun u => u.on u.system.halt

end Outbound

/-! ### Refinement -/

variable {profile settings}

/-- The endpoint that a move registers. -/
def Move.registered : Move → Option Endpoint
  | .act (.createEndpoint endpoint) => some endpoint
  | _ => none

def Label.registered : Label → Option Endpoint
  | .move m | .crash (some m) => m.registered
  | .crash none => none

/-- The labels of a dispatcher that register no endpoint but this one. -/
def Registering (endpoint : Option Endpoint) (_ : System) (l : System.Label) : Prop :=
  ∀ other, l.act? = some (.createEndpoint other) → endpoint = some other

/-- A move is some actions of a dispatcher, the last one of which may be cut short. -/
theorem take_refines {o o' : Outbound client} {m : Move} (h : o.take profile settings m = some o') :
    ∃ ls u a, Run (System.step settings) (Registering m.registered) o.system ls u ∧
      (∀ other, a = .createEndpoint other → m.registered = some other) ∧ u.take settings a = some o'.system := by
  unfold Outbound.take at h
  split at h
  · cases h
  · rename_i clock stored
    obtain ⟨s, hs, rfl⟩ := Option.map_eq_some_iff.mp h
    unfold Outbound.screen
    split
    · rename_i attempt hstage
      split
      · rename_i fault hasked
        refine ⟨[.action (.dispatch clock stored)], s, .resolved (some fault) clock stored,
          .cons (fun other h => by cases h) hs (.nil s), (fun _ h => by cases h), ?_⟩
        unfold System.take
        rw [hstage]
        rfl
      · exact ⟨[], o.system, .dispatch clock stored, .nil _, (fun _ h => by cases h), hs⟩
    · exact ⟨[], o.system, .dispatch clock stored, .nil _, (fun _ h => by cases h), hs⟩
  · rename_i a _ _
    obtain ⟨s, hs, rfl⟩ := Option.map_eq_some_iff.mp h
    refine ⟨[], o.system, a, .nil _, fun other ha => ?_, hs⟩
    rw [ha]
    rfl
  · rename_i resolution clock stored
    split at h
    · rename_i attempt hstage
      split at h
      · rename_i fault hrefused
        cases h
        refine ⟨[], o.system, .resolved (some fault) clock stored, .nil _, (fun _ h => by cases h), ?_⟩
        unfold System.take
        rw [hstage]
        rfl
      · rename_i destination haccepted
        cases h
        refine ⟨[], o.system, .resolved none clock stored, .nil _, (fun _ h => by cases h), ?_⟩
        unfold System.take
        rw [hstage]
        rfl
    · cases h

theorem step_refines {o o' : Outbound client} {l : Label} (h : o.step profile settings l = some o') :
    ∃ ls, Run (System.step settings) (Registering l.registered) o.system ls o'.system := by
  cases l with
  | move m =>
    obtain ⟨ls, u, a, hrun, hregistered, hlast⟩ := take_refines h
    refine ⟨ls ++ [.action a], hrun.append (.cons (e := System.Label.action a) (fun other ha => ?_) hlast (.nil _))⟩
    exact hregistered other (Option.some.inj ha)
  | crash during =>
    cases during with
    | none =>
      cases h
      exact ⟨[.crash none], .cons (fun other h => by cases h) rfl (.nil _)⟩
    | some m =>
      obtain ⟨u, hu, rfl⟩ := Option.map_eq_some_iff.mp h
      obtain ⟨ls, v, a, hrun, hregistered, hlast⟩ := take_refines hu
      refine ⟨ls ++ [.crash (some a)], hrun.append (.cons (fun other ha => ?_) ?_ (.nil _))⟩
      · exact hregistered other (Option.some.inj ha)
      · exact Option.map_eq_some_iff.mpr ⟨u.system, hlast, rfl⟩

/-- Every history of the dispatcher with its destinations is one of the dispatcher. -/
theorem run_refines {o o' : Outbound client} {ls : List Label} (h : Run (Outbound.step profile settings) Free o ls o') :
    ∃ ls', Run (System.step settings) Free o.system ls' o'.system := by
  induction h with
  | nil o => exact ⟨[], .nil o.system⟩
  | cons _ hstep _ ih =>
    obtain ⟨ls, hrun⟩ := step_refines hstep
    obtain ⟨ls', hrest⟩ := ih
    exact ⟨ls ++ ls', hrun.free.append hrest⟩

/-! ### Once an attempt -/

/-- An attempt that is to be resolved was so before, or has just begun at an active endpoint. -/
theorem resolving_take {s t : System} {e : Action} (h : s.take settings e = some t) {a : Attempt}
    (ht : t.stage = .resolving a) :
    s.stage = .resolving a ∨ s.starts e = some a.deliveryId ∧ a.endpoint.status = .active := by
  have hsame : ∀ {m}, t = s.act m → s.stage = .resolving a := fun htm => by
    rw [htm] at ht
    exact ht
  have hground : ∀ {P : Prop}, t.stage = .idle ∨ t.stage = .stopped → P := fun hstage => by
    rw [ht] at hstage
    simp at hstage
  unfold System.take at h
  cases e with
  | createEndpoint | delete | rotate | enable | redeliver => exact .inl (hsame (Option.some.inj h).symm)
  | createRun runId run =>
    dsimp only at h
    split at h
    · cases h
    · exact .inl (hsame (Option.some.inj h).symm)
  | enterPhase | append =>
    obtain ⟨_, -, rfl⟩ := Option.map_eq_some_iff.mp h
    exact .inl (hsame rfl)
  | start failsAt now =>
    dsimp only at h
    split at h
    · cases h
      exact hground (.inl rfl)
    · cases h
      exact hground (.inr rfl)
    · cases h
  | dispatch clock stored =>
    dsimp only at h
    split at h
    · rename_i hidle
      cases hpicked : dispatchOne clock.now s.service with
      | none =>
        rw [hpicked] at h
        exact .inl (hsame (m := s.service) (Option.some.inj h).symm)
      | some picked =>
        rw [hpicked] at h
        cases h
        rw [Option.elim_some] at ht
        unfold deliver at ht
        dsimp only at ht
        split at ht
        · cases ht
        · rename_i hbegun
          split at ht
          · cases ht
          · split at ht
            · cases ht
              refine .inr ⟨?_, (dispatchOne_eq_some hpicked).2.1⟩
              simp [System.starts, hidle, hpicked, not_not.mp hbegun]
            · cases ht
    · cases h
  | resolved fault clock stored =>
    dsimp only at h
    split at h
    · cases fault with
      | none =>
        cases h
        cases ht
      | some fault =>
        cases h
        exact hground (.inl rfl)
    · cases h
  | response outcome clock stored =>
    dsimp only at h
    split at h
    · cases h
      refine hground (.inl ?_)
      unfold conclude
      split
      · rfl
      · split
        · split <;> rfl
        · rfl
    · cases h
  | stop stored now =>
    dsimp only at h
    cases hb : s.stage.attempt? with
    | none =>
      rw [hb] at h
      cases h
      exact hground (.inr rfl)
    | some b =>
      rw [hb] at h
      cases h
      exact hground (.inr rfl)

/-- The attempts that have sent, each by its delivery and its number, are past ones; the one
that is to be resolved is a later one. -/
structure Tallied (settings : Settings) (s : System) (sent : List (ℕ × ℕ)) : Prop where
  inv : Inv settings s
  nodup : sent.Nodup
  past : ∀ x ∈ sent, ∃ d, s.service.deliveries.get x.1 = some d ∧ x.2 ≤ d.attemptCount
  later : ∀ a, s.stage = .resolving a → a.endpoint.status = .active ∧
    ∀ x ∈ sent, x.1 = a.deliveryId → x.2 < a.delivery.attemptCount

theorem Tallied.step {s t : System} {sent : List (ℕ × ℕ)} (hs : Tallied settings s sent) {l : System.Label}
    (h : s.step settings l = some t) : Tallied settings t sent := by
  have hcount := fun id => @count_step settings s t hs.inv l h id
  have hinv := inv_step hs.inv h
  refine ⟨hinv, hs.nodup, fun x hx => ?_, fun a ha => ?_⟩
  · obtain ⟨d, hd, hle⟩ := hs.past x hx
    obtain ⟨d', hd', -, hgrown⟩ := (hcount x.1).1 d hd
    exact ⟨d', hd', by omega⟩
  · have hcases : s.stage = .resolving a ∨ l.act?.bind s.starts = some a.deliveryId ∧ a.endpoint.status = .active := by
      rcases System.step_cases h with ⟨-, rfl⟩ | ⟨e, u, hl, hu, ⟨-, rfl⟩ | rfl⟩
      · cases ha
      · rw [hl]
        exact resolving_take hu ha
      · cases ha
    rcases hcases with hbefore | ⟨hstarts, hactive⟩
    · exact hs.later a hbefore
    · refine ⟨hactive, fun x hx hid => ?_⟩
      obtain ⟨d, hd, hle⟩ := hs.past x hx
      obtain ⟨d', hd', -, hgrown⟩ := (hcount x.1).1 d hd
      have hthere := (Service.delivery_eq_some.mp (hinv.flight a (by rw [ha]; rfl)).there).1
      rw [← hid, hd'] at hthere
      rw [hid, if_pos hstarts] at hgrown
      rw [← Option.some.inj hthere]
      omega

theorem Tallied.run {s t : System} {sent : List (ℕ × ℕ)} {ls : List System.Label}
    (h : Run (System.step settings) Free s ls t) (hs : Tallied settings s sent) : Tallied settings t sent :=
  h.invariant (I := fun s => Tallied settings s sent) (fun _ _ _ hs _ hstep => hs.step hstep) hs

/-- What was sent, each by the delivery and the number of the attempt. -/
def Outbound.sent (o : Outbound client) : List (ℕ × ℕ) :=
  o.posts.map fun post => (post.attempt.deliveryId, post.attempt.delivery.attemptCount)

/-- A step sends nothing, or what a resolution has let through. -/
theorem posts_step {o o' : Outbound client} {l : Label} (h : o.step profile settings l = some o') :
    o'.posts = o.posts ∨ ∃ a resolution d, o.system.stage = .resolving a ∧
      profile.destination client a.endpoint.url resolution = .ok d ∧ o'.posts = o.posts ++ [⟨a, resolution, d⟩] ∧
      (o'.system = { o.system with stage := .sending a } ∨ o'.system = o.system.halt) := by
  have htake : ∀ {m u}, o.take profile settings m = some u → u.posts = o.posts ∨ ∃ a resolution d,
      o.system.stage = .resolving a ∧ profile.destination client a.endpoint.url resolution = .ok d ∧
      u.posts = o.posts ++ [⟨a, resolution, d⟩] ∧ u.system = { o.system with stage := .sending a } := by
    intro m u h
    unfold Outbound.take at h
    split at h
    · cases h
    · obtain ⟨s, hs, rfl⟩ := Option.map_eq_some_iff.mp h
      exact .inl rfl
    · obtain ⟨s, hs, rfl⟩ := Option.map_eq_some_iff.mp h
      exact .inl rfl
    · split at h
      · rename_i attempt hstage
        split at h
        · cases h
          exact .inl rfl
        · rename_i destination haccepted
          cases h
          exact .inr ⟨attempt, _, destination, hstage, haccepted, rfl, rfl⟩
      · cases h
  cases l with
  | move m =>
    rcases htake h with hposts | ⟨a, resolution, d, hstage, haccepted, hposts, hsystem⟩
    · exact .inl hposts
    · exact .inr ⟨a, resolution, d, hstage, haccepted, hposts, .inl hsystem⟩
  | crash during =>
    cases during with
    | none =>
      cases h
      exact .inl rfl
    | some m =>
      obtain ⟨u, hu, rfl⟩ := Option.map_eq_some_iff.mp h
      rcases htake hu with hposts | ⟨a, resolution, d, hstage, haccepted, hposts, hsystem⟩
      · exact .inl hposts
      · refine .inr ⟨a, resolution, d, hstage, haccepted, hposts, .inr ?_⟩
        show u.system.halt = _
        rw [hsystem]
        rfl

/-! ### Whole histories -/

/-- What was sent was let through, for an endpoint that was active; no attempt sends twice. -/
structure Sound (profile : Profile) (settings : Settings) (o : Outbound client) : Prop where
  tallied : Tallied settings o.system o.sent
  accepted : ∀ post ∈ o.posts, post.attempt.endpoint.status = .active ∧
    profile.destination client post.attempt.endpoint.url post.resolution = .ok post.destination

theorem sound_init : Sound profile settings ({} : Outbound client) :=
  ⟨⟨inv_init, List.nodup_nil, fun _ h => absurd h List.not_mem_nil, fun _ h => by cases h⟩,
    fun _ h => absurd h List.not_mem_nil⟩

/-- The attempt that is to be resolved joins those that have sent. -/
theorem Tallied.send {s t : System} {sent : List (ℕ × ℕ)} {a : Attempt} (hs : Tallied settings s sent)
    (hstage : s.stage = .resolving a) (ht : t = { s with stage := .sending a } ∨ t = s.halt) :
    Tallied settings t (sent ++ [(a.deliveryId, a.delivery.attemptCount)]) := by
  have hflight := hs.inv.flight a (by rw [hstage]; rfl)
  have hthere := (Service.delivery_eq_some.mp hflight.there).1
  have hservice : t.service = s.service := by rcases ht with rfl | rfl <;> rfl
  have hinv : Inv settings t := by
    rcases ht with rfl | rfl
    · refine ⟨hs.inv.numbered, hs.inv.placed, fun b hb => ?_⟩
      cases hb
      exact hflight
    · exact hs.inv.halt
  refine ⟨hinv, ?_, fun x hx => ?_, fun b hb => ?_⟩
  · rw [← List.concat_eq_append]
    refine hs.nodup.concat fun hmem => ?_
    have := (hs.later a hstage).2 _ hmem rfl
    omega
  · rw [hservice]
    rcases List.mem_append.mp hx with hx | hx
    · exact hs.past x hx
    · rw [List.mem_singleton.mp hx]
      exact ⟨a.delivery, hthere, le_rfl⟩
  · rcases ht with rfl | rfl <;> cases hb

theorem sound_step {o o' : Outbound client} (ho : Sound profile settings o) {l : Label}
    (h : o.step profile settings l = some o') : Sound profile settings o' := by
  rcases posts_step h with hposts | ⟨a, resolution, d, hstage, haccepted, hposts, hsystem⟩
  · obtain ⟨ls, hrun⟩ := step_refines h
    have hsent : o'.sent = o.sent := by rw [Outbound.sent, hposts, Outbound.sent]
    exact ⟨hsent ▸ ho.tallied.run hrun.free, hposts ▸ ho.accepted⟩
  · have hsent : o'.sent = o.sent ++ [(a.deliveryId, a.delivery.attemptCount)] := by
      rw [Outbound.sent, hposts, List.map_append]
      rfl
    refine ⟨hsent ▸ ho.tallied.send hstage hsystem, fun post hpost => ?_⟩
    rw [hposts] at hpost
    rcases List.mem_append.mp hpost with hpost | hpost
    · exact ho.accepted post hpost
    · rw [List.mem_singleton.mp hpost]
      exact ⟨(ho.tallied.later a hstage).1, haccepted⟩

/-- What a request that was sent has behind it: everything that its URL and the answers for its
host must meet; it goes to one of the addresses, under the names of the URL. -/
structure Vetted (profile : Profile) (post : Post client) (answers : List String) (parsed : Urls.SplitResult)
    (addresses : List Address) (a : Address) (original : client.Url) : Prop extends
    Acceptable profile client post.attempt.endpoint.url answers parsed addresses a original post.destination.requestUrl where
  active : post.attempt.endpoint.status = .active
  answered : post.resolution = .answered answers
  target : Address.read (client.host post.destination.requestUrl).toList = some a
  unchanged : client.scheme post.destination.requestUrl = client.scheme original ∧
    client.port post.destination.requestUrl = client.port original ∧
    client.rawPath post.destination.requestUrl = client.rawPath original
  named : post.destination.hostHeader = client.netloc original ∧ post.destination.sniHostname = client.host original

/-- In every history, whatever the names resolve to and whatever dies: no request goes where it
may not, and no attempt sends two. -/
theorem requests_vetted (hclient : client.Documented) {ls : List Label} {o : Outbound client}
    (h : Run (Outbound.step profile settings) Free {} ls o) :
    o.sent.Nodup ∧ ∀ post ∈ o.posts, ∃ answers parsed addresses a original,
      Vetted profile post answers parsed addresses a original := by
  have ho : Sound profile settings o :=
    h.invariant (I := fun o => Sound profile settings o) (fun _ _ _ ho _ hstep => sound_step ho hstep) sound_init
  refine ⟨ho.tallied.nodup, fun post hpost => ?_⟩
  obtain ⟨hactive, haccepted⟩ := ho.accepted post hpost
  obtain ⟨answers, parsed, addresses, a, original, hanswered, hacceptable, hnamed⟩ := destination_eq_ok.mp haccepted
  obtain ⟨hscheme, hport, hpath, hhost⟩ := hclient _ _ _ hacceptable.copied
  have hread : Address.read (String.ofList a.text).toList = some a := by
    rw [String.toList_ofList]
    exact Address.read_text a
  refine ⟨answers, parsed, addresses, a, original, hacceptable, hactive, hanswered, ?_, ⟨hscheme, hport, hpath⟩, hnamed⟩
  rw [hhost a hread]
  exact hread

/-- The resolution of a host either lets its attempt send one request, or ends the attempt, and
it lets it send exactly where the URL and the answers meet everything asked of them. -/
theorem resolution_decides {ls : List Label} {o o' : Outbound client}
    (h : Run (Outbound.step profile settings) Free {} ls o) {a : Attempt} (hstage : o.system.stage = .resolving a)
    {resolution : Resolution} {clock : Clock} {stored : Stored}
    (hstep : o.step profile settings (.move (.resolve resolution clock stored)) = some o') :
    (∃ d answers parsed addresses b original, resolution = .answered answers ∧
        Acceptable profile client a.endpoint.url answers parsed addresses b original d.requestUrl ∧
        o' = ⟨{ o.system with stage := .sending a }, o.posts ++ [⟨a, resolution, d⟩]⟩) ∨
      (¬ ∃ answers parsed addresses b original requestUrl, resolution = .answered answers ∧
        Acceptable profile client a.endpoint.url answers parsed addresses b original requestUrl) ∧
      o'.posts = o.posts ∧ o'.system.stage = .idle ∧
      ∃ fault d', profile.destination client a.endpoint.url resolution = .error fault ∧
        o'.system.service.deliveries.get a.deliveryId = some d' ∧ d'.about = a.delivery.about ∧
        (stored.ended = true → (d'.status = .retrying ∨ d'.status = .exhausted) ∧
          d'.lastProblem = some (problem a.deliveryId a.delivery fault)) ∧
        ∀ k ≠ a.deliveryId, o'.system.service.deliveries.get k = o.system.service.deliveries.get k := by
  have ho : Sound profile settings o :=
    h.invariant (I := fun o => Sound profile settings o) (fun _ _ _ ho _ hstep => sound_step ho hstep) sound_init
  have hflight := ho.tallied.inv.flight a (by rw [hstage]; rfl)
  unfold Outbound.step Outbound.take at hstep
  dsimp only at hstep
  rw [hstage] at hstep
  dsimp only at hstep
  cases hdestination : profile.destination client a.endpoint.url resolution with
  | ok d =>
    rw [hdestination] at hstep
    cases hstep
    obtain ⟨answers, parsed, addresses, b, original, hanswered, hacceptable, -⟩ := destination_eq_ok.mp hdestination
    exact .inl ⟨d, answers, parsed, addresses, b, original, hanswered, hacceptable, rfl⟩
  | error fault =>
    rw [hdestination] at hstep
    cases hstep
    have hget := get_retryOrExhaust settings hflight.there clock stored fault
    refine .inr ⟨?_, rfl, rfl, fault, a.delivery.failed settings clock stored a.deliveryId fault, rfl, ?_,
      (failed_about ..).1, fun hended => ?_, fun k hk => ?_⟩
    · rintro ⟨answers, parsed, addresses, b, original, requestUrl, hanswered, hacceptable⟩
      have hok := destination_eq_ok (d := ⟨requestUrl, client.netloc original, client.host original⟩) |>.mpr
        ⟨answers, parsed, addresses, b, original, hanswered, hacceptable, rfl, rfl⟩
      rw [hdestination] at hok
      cases hok
    · exact (hget a.deliveryId).trans (if_pos rfl)
    · unfold Delivery.failed
      rw [if_neg (by simp [hended])]
      split
      · exact ⟨.inr rfl, rfl⟩
      · exact ⟨.inl rfl, rfl⟩
    · exact (hget k).trans (if_neg hk)

namespace Pinned

/-- A client whose URLs are cut as the check cuts them. -/
structure Parts where
  scheme : String
  host : String
  port : Option ℕ
  rawPath : String

def tables : Urls.Tables := ⟨id, List.map Char.toLower, fun cs => "'" ++ String.ofList cs ++ "'"⟩

def parts : Client where
  Url := Parts
  url text :=
    match Urls.urlsplit tables text.toList with
    | .error text => .error (valueError text)
    | .ok parsed =>
      .ok
        { scheme := String.ofList parsed.scheme
          host := String.ofList ((parsed.hostname tables).getD [])
          port := (parsed.port tables).toOption.join
          rawPath := String.ofList (parsed.path ++ '?' :: parsed.query) }
  copyWithHost u host := .ok { u with host := host }
  netloc u := u.port.elim u.host fun port => u.host ++ ":" ++ toString port
  scheme := Parts.scheme
  host := Parts.host
  port := Parts.port
  rawPath := Parts.rawPath

theorem documented : parts.Documented := by
  intro u host u' h
  cases h
  exact ⟨rfl, rfl, rfl, fun _ _ => rfl⟩

/-- Only the network 10.0.0.0/8 is not public. -/
def private10 : Profile where
  requireHttps := true
  allowedCidrs := []
  isGlobal a := !(Network.mk .v4 (10 * 2 ^ 24) 8).contains a
  tables := tables

def endpoint : Endpoint where
  tenantId := "tenant"
  url := "https://hooks.example.test:8443/automl?source=agent"
  eventTypes := ["*"]
  signingSecret := "key"

/-- An attempt comes to the resolution of its host. -/
def resolving : List Label :=
  [.move (.act (.createEndpoint endpoint)),
    .move (.act (.createRun "run" { tenantId := "tenant", phase := "INGEST", webhookEndpointIds := [1] })),
    .move (.act (.append "run" [1]
      { eventId := "evt", seq := 0, type := "run.started.v1", occurredAt := Lost.moment 0 0 })),
    .move (.act (.start none (Lost.moment 0 0).iso)), .move (.act (.dispatch Lost.clock {}))]

def answers : List Label := resolving ++ [.move (.resolve (.answered ["93.184.216.34"]) Lost.clock {})]

theorem sends : (exec (Outbound.step private10 Lost.trusting) Free ({} : Outbound parts) answers).any (fun o =>
    o.posts.any fun post => decide (parts.host post.destination.requestUrl = "93.184.216.34" ∧
      post.destination.hostHeader = "hooks.example.test:8443" ∧ post.destination.sniHostname = "hooks.example.test")) =
    true := by decide +kernel

theorem sends_to_address : ∃ post : Post parts, parts.host post.destination.requestUrl = "93.184.216.34" ∧
    post.destination.hostHeader = "hooks.example.test:8443" ∧
    ∃ answers parsed addresses a original, Vetted private10 post answers parsed addresses a original := by
  obtain ⟨o, ho, hsent⟩ := (Option.any_eq_true _ _).mp sends
  obtain ⟨post, hpost, hnames⟩ := List.any_eq_true.mp hsent
  obtain ⟨hhost, hheader, -⟩ := of_decide_eq_true hnames
  exact ⟨post, hhost, hheader, (requests_vetted documented (run_of_exec ho)).2 post hpost⟩

def blocked : Label := .move (.resolve (.answered ["93.184.216.34", "10.0.0.7"]) Lost.clock {})

theorem resolves : (exec (Outbound.step private10 Lost.trusting) Free ({} : Outbound parts) resolving).any (fun o =>
    (o.system.stage matches .resolving _) && (o.step private10 Lost.trusting blocked).any (·.posts.length = 0)) =
    true := by decide +kernel

/-- Of two addresses that a host has, one may not be reached. -/
theorem blocks_mixed : ∃ (o o' : Outbound parts) (a : Attempt), o.system.stage = .resolving a ∧
    o.step private10 Lost.trusting blocked = some o' ∧ o'.posts = o.posts ∧
    ∃ d', o'.system.service.deliveries.get a.deliveryId = some d' ∧ (d'.status = .retrying ∨ d'.status = .exhausted) := by
  obtain ⟨o, ho, hboth⟩ := (Option.any_eq_true _ _).mp resolves
  obtain ⟨hresolving, hblocked⟩ := Bool.and_eq_true_iff.mp hboth
  obtain ⟨o', hstep, hnone⟩ := (Option.any_eq_true _ _).mp hblocked
  obtain ⟨a, hstage⟩ : ∃ a, o.system.stage = .resolving a := by
    split at hresolving
    · exact ⟨_, ‹_›⟩
    · cases hresolving
  rcases resolution_decides (run_of_exec ho) hstage hstep with ⟨d, -, -, -, -, -, -, -, rfl⟩ |
    ⟨-, hposts, -, fault, d', -, hd', -, hended, -⟩
  · simp at hnone
  · exact ⟨o, o', a, hstage, hstep, hposts, d', hd', (hended rfl).1⟩

end Pinned

end AutomlApi.Destinations
