import AutomlApi.Library.Urls
import AutomlApi.Webhooks.Data

/-! Where a webhook request may go. The host of the URL is resolved, every address that it has
must be one that may be reached, and the request goes to one of them by its number. -/

namespace AutomlApi.Destinations

open Webhooks

/-! ### The check of a destination -/

/-- The URLs of the HTTP client. -/
structure Client where
  Url : Type
  url : String → Except Fault Url
  copyWithHost : Url → String → Except Fault Url
  netloc : Url → String
  scheme : Url → String
  host : Url → String
  port : Url → Option ℕ
  rawPath : Url → String

/-- A copy with another host differs in the host; an address stands for itself. -/
def Client.Documented (client : Client) : Prop :=
  ∀ u host u', client.copyWithHost u host = .ok u' →
    client.scheme u' = client.scheme u ∧ client.port u' = client.port u ∧ client.rawPath u' = client.rawPath u ∧
      ∀ a, Address.read host.toList = some a → client.host u' = host

/-- The settings that a destination is checked by. -/
structure Profile where
  requireHttps : Bool
  allowedCidrs : List Network
  isGlobal : Address → Bool
  tables : Urls.Tables

/-- What is found out about a host: the texts of its addresses, nothing in time, or an error. -/
inductive Resolution where
  | answered (answers : List String)
  | timedOut
  | raised (fault : Fault)

structure Destination (client : Client) where
  requestUrl : client.Url
  hostHeader : String
  sniHostname : String

def valueError (text : String) : Fault := ⟨"ValueError", text, none⟩

/-- The texts of the errors of a check of a URL. -/
structure Messages where
  scheme : String
  authority : String
  fragment : String

namespace Profile

variable (profile : Profile)

def allowedSchemes : List (List Char) :=
  if profile.requireHttps then ["https".toList] else ["http".toList, "https".toList]

def permitted (a : Address) : Bool := profile.allowedCidrs.any (·.contains a) || profile.isGlobal a

/-- What both checks of a URL ask for first. -/
def parse (messages : Messages) (url : String) : Except Fault Urls.SplitResult :=
  match Urls.urlsplit profile.tables url.toList with
  | .error text => .error (valueError text)
  | .ok parsed =>
    if !profile.allowedSchemes.contains (parsed.scheme.map Char.toLower) then .error (valueError messages.scheme)
    else if (parsed.hostname profile.tables).getD [] = [] ∨ parsed.userinfo.isSome then
      .error (valueError messages.authority)
    else if parsed.fragment ≠ [] then .error (valueError messages.fragment)
    else .ok parsed

def registrationMessages : Messages where
  scheme := "Webhook URL must use HTTPS in this service profile."
  authority := "Webhook URL must have a host and cannot contain user information."
  fragment := "Webhook URL cannot contain a fragment."

/-- `validate_webhook_registration_url`. -/
def validateRegistration (url : String) : Except Fault Unit :=
  match profile.parse registrationMessages url with
  | .error fault => .error fault
  | .ok parsed =>
    match Address.read ((parsed.hostname profile.tables).getD []) with
    | none => .ok ()
    | some literal =>
      if profile.permitted literal then .ok ()
      else
        .error (valueError
          "Webhook URL uses a non-public IP; configure AUTOML_WEBHOOK_ALLOWED_CIDRS first.")

def deliveryMessages : Messages where
  scheme := "WEBHOOK_SCHEME_NOT_ALLOWED"
  authority := "WEBHOOK_AUTHORITY_INVALID"
  fragment := "WEBHOOK_FRAGMENT_NOT_ALLOWED"

/-- `_validate_delivery_destination`, until it resolves: the host and the port to ask for. -/
def asked (url : String) : Except Fault (List Char × ℕ) :=
  match profile.parse deliveryMessages url with
  | .error fault => .error fault
  | .ok parsed =>
    match parsed.port profile.tables with
    | .error text => .error (valueError text)
    | .ok port =>
      let fallback := if parsed.scheme.map Char.toLower = "https".toList then 443 else 80
      .ok ((parsed.hostname profile.tables).getD [], (port.filter (· ≠ 0)).getD fallback)

/-- An answer without the scope behind its address. -/
def readAnswer (answer : String) : Except Fault Address :=
  let text := (Urls.cut '%' answer.toList).1
  match Address.read text with
  | none => .error (valueError (profile.tables.repr text ++ " does not appear to be an IPv4 or IPv6 address"))
  | some a => .ok a

/-- `_validate_delivery_destination`, after it has resolved: the address that is chosen. -/
def selected : Resolution → Except Fault Address
  | .timedOut => .error ⟨"TimeoutError", "WEBHOOK_DNS_TIMEOUT", none⟩
  | .raised fault => .error fault
  | .answered answers =>
    match answers.mapM profile.readAnswer with
    | .error fault => .error fault
    | .ok addresses =>
      match addresses.min? with
      | none => .error (valueError "WEBHOOK_DNS_EMPTY")
      | some a => if addresses.all profile.permitted then .ok a else .error (valueError "WEBHOOK_DESTINATION_BLOCKED")

variable (client : Client)

/-- `_validate_delivery_destination`. -/
def destination (url : String) (resolution : Resolution) : Except Fault (Destination client) :=
  match profile.asked url, profile.selected resolution with
  | .error fault, _ | .ok _, .error fault => .error fault
  | .ok _, .ok a =>
    match client.url url with
    | .error fault => .error fault
    | .ok original =>
      match client.copyWithHost original (String.ofList a.text) with
      | .error fault => .error fault
      | .ok requestUrl => .ok ⟨requestUrl, client.netloc original, client.host original⟩

end Profile

/-! ### What a request rests on -/

variable {profile : Profile} {client : Client}

theorem mapM_eq_ok {f : String → Except Fault Address} {xs : List String} {as : List Address} :
    xs.mapM f = .ok as ↔ List.Forall₂ (fun x a => f x = .ok a) xs as := by
  induction xs generalizing as with
  | nil =>
    rw [List.mapM_nil, List.forall₂_nil_left_iff]
    exact ⟨fun h => (Except.ok.inj h).symm, fun h => h ▸ rfl⟩
  | cons x xs ih =>
    rw [List.mapM_cons, List.forall₂_cons_left_iff]
    cases hx : f x with
    | error fault => simp [bind, Except.bind]
    | ok a =>
      cases hxs : xs.mapM f with
      | error fault => simp [bind, Except.bind, ← ih, hxs]
      | ok bs => simp [bind, Except.bind, pure, Except.pure, ← ih, hxs, eq_comm]

/-- What lets a request be sent: of the URL, of the answers for its host, and of the client. -/
structure Acceptable (profile : Profile) (client : Client) (url : String) (answers : List String)
    (parsed : Urls.SplitResult) (addresses : List Address) (a : Address) (original requestUrl : client.Url) : Prop where
  split : Urls.urlsplit profile.tables url.toList = .ok parsed
  scheme : parsed.scheme.map Char.toLower ∈ profile.allowedSchemes
  hostname : (parsed.hostname profile.tables).getD [] ≠ []
  anonymous : '@' ∉ parsed.netloc
  fragment : parsed.fragment = []
  port : ∃ port, parsed.port profile.tables = .ok port
  resolved : List.Forall₂ (fun answer b => profile.readAnswer answer = .ok b) answers addresses
  permitted : ∀ b ∈ addresses, profile.permitted b
  least : a ∈ addresses ∧ ∀ b ∈ addresses, a ≤ b
  known : client.url url = .ok original
  copied : client.copyWithHost original (String.ofList a.text) = .ok requestUrl

theorem parse_eq_ok {messages : Messages} {url : String} {parsed : Urls.SplitResult} :
    profile.parse messages url = .ok parsed ↔ Urls.urlsplit profile.tables url.toList = .ok parsed ∧
      parsed.scheme.map Char.toLower ∈ profile.allowedSchemes ∧ (parsed.hostname profile.tables).getD [] ≠ [] ∧
      '@' ∉ parsed.netloc ∧ parsed.fragment = [] := by
  unfold Profile.parse
  cases hsplit : Urls.urlsplit profile.tables url.toList with
  | error text => simp
  | ok found =>
    dsimp only
    have huser : found.userinfo.isSome ↔ '@' ∈ found.netloc := by
      rw [← not_iff_not, Bool.not_eq_true, Option.isSome_eq_false_iff, Option.isNone_iff_eq_none, found.userinfo_eq_none]
    have hallowed : (!profile.allowedSchemes.contains (found.scheme.map Char.toLower)) = true ↔
        found.scheme.map Char.toLower ∉ profile.allowedSchemes := by simp
    split
    · rename_i hscheme
      constructor
      · intro h
        cases h
      · rintro ⟨heq, h, -⟩
        cases heq
        exact absurd h (hallowed.mp hscheme)
    · rename_i hscheme
      split
      · rename_i hauthority
        constructor
        · intro h
          cases h
        · rintro ⟨heq, -, hhost, huserinfo, -⟩
          cases heq
          rcases hauthority with h | h
          · exact absurd h hhost
          · exact absurd (huser.mp h) huserinfo
      · rename_i hauthority
        obtain ⟨hhost, hnone⟩ := not_or.mp hauthority
        split
        · rename_i hfragment
          constructor
          · intro h
            cases h
          · rintro ⟨heq, -, -, -, h⟩
            cases heq
            exact absurd h hfragment
        · rename_i hfragment
          constructor
          · intro h
            cases h
            exact ⟨rfl, not_not.mp (mt hallowed.mpr hscheme), hhost, fun h => hnone (huser.mpr h), not_not.mp hfragment⟩
          · rintro ⟨heq, -⟩
            cases heq
            rfl

theorem asked_eq_ok {url : String} {target : List Char × ℕ} (h : profile.asked url = .ok target) :
    ∃ parsed port, profile.parse Profile.deliveryMessages url = .ok parsed ∧ parsed.port profile.tables = .ok port := by
  unfold Profile.asked at h
  split at h
  · cases h
  · rename_i parsed hparsed
    split at h
    · cases h
    · rename_i port hport
      exact ⟨parsed, port, hparsed, hport⟩

theorem asked_of_parse {url : String} {parsed : Urls.SplitResult} {port : Option ℕ}
    (hparsed : profile.parse Profile.deliveryMessages url = .ok parsed) (hport : parsed.port profile.tables = .ok port) :
    ∃ target, profile.asked url = .ok target := by
  unfold Profile.asked
  rw [hparsed]
  dsimp only
  rw [hport]
  exact ⟨_, rfl⟩

theorem selected_eq_ok {resolution : Resolution} {a : Address} :
    profile.selected resolution = .ok a ↔ ∃ answers addresses, resolution = .answered answers ∧
      List.Forall₂ (fun answer b => profile.readAnswer answer = .ok b) answers addresses ∧
      (∀ b ∈ addresses, profile.permitted b) ∧ a ∈ addresses ∧ ∀ b ∈ addresses, a ≤ b := by
  unfold Profile.selected
  constructor
  · intro h
    split at h
    · cases h
    · cases h
    · rename_i answers
      split at h
      · cases h
      · rename_i addresses haddresses
        split at h
        · cases h
        · rename_i b hmin
          split at h
          · rename_i hpermitted
            cases h
            exact ⟨answers, addresses, rfl, mapM_eq_ok.mp haddresses, List.all_eq_true.mp hpermitted,
              List.min?_eq_some_iff.mp hmin⟩
          · cases h
  · rintro ⟨answers, addresses, rfl, haddresses, hpermitted, hleast⟩
    dsimp only
    rw [mapM_eq_ok.mpr haddresses]
    dsimp only
    rw [List.min?_eq_some_iff.mpr hleast]
    dsimp only
    rw [if_pos (List.all_eq_true.mpr hpermitted)]

theorem destination_eq_ok {url : String} {resolution : Resolution} {d : Destination client} :
    profile.destination client url resolution = .ok d ↔ ∃ answers parsed addresses a original,
      resolution = .answered answers ∧ Acceptable profile client url answers parsed addresses a original d.requestUrl ∧
      d.hostHeader = client.netloc original ∧ d.sniHostname = client.host original := by
  unfold Profile.destination
  constructor
  · intro h
    split at h
    · cases h
    · cases h
    · rename_i target a hasked hselected
      obtain ⟨parsed, port, hparsed, hport⟩ := asked_eq_ok hasked
      obtain ⟨hsplit, hscheme, hhost, huser, hfragment⟩ := parse_eq_ok.mp hparsed
      obtain ⟨answers, addresses, hresolution, hresolved, hpermitted, hleast⟩ := selected_eq_ok.mp hselected
      split at h
      · cases h
      · rename_i original hknown
        split at h
        · cases h
        · rename_i requestUrl hcopied
          cases h
          exact ⟨answers, parsed, addresses, a, original, hresolution,
            ⟨hsplit, hscheme, hhost, huser, hfragment, ⟨port, hport⟩, hresolved, hpermitted, hleast, hknown, hcopied⟩,
            rfl, rfl⟩
  · rintro ⟨answers, parsed, addresses, a, original, hresolution, h, hheader, hsni⟩
    obtain ⟨port, hport⟩ := h.port
    obtain ⟨target, hasked⟩ := asked_of_parse
      (parse_eq_ok.mpr ⟨h.split, h.scheme, h.hostname, h.anonymous, h.fragment⟩) hport
    have hselected := selected_eq_ok.mpr ⟨answers, addresses, hresolution, h.resolved, h.permitted, h.least⟩
    rw [hasked, hselected]
    dsimp only
    rw [h.known]
    dsimp only
    rw [h.copied]
    dsimp only
    rw [← hheader, ← hsni]

end AutomlApi.Destinations
