import Mathlib.Algebra.Order.Ring.Nat
import AutomlApi.Hardening.Capped
import AutomlApi.Hardening.Metrics
import AutomlApi.Library.Texts

/-! Requests as they are served. A request is charged to its client, then to its credential, and takes a slot before
its handler runs. Nothing is awaited while a lock is held, so that no lock is waited for: a request is let in or
refused in one step, and others move only while its handler runs. -/

namespace AutomlApi.Serving

open Hardening (RateLimiter overflowKey content)
open Hardening.System (Inv Ordered)
open Hardening.Metrics (ServiceMetrics routeLabel Key)
open Runs (Run)
open Sliding (Capped recent)

/-! ### Counts -/

section Counts

variable {α β κ : Type*}

theorem countP_set {p : α → Bool} {l : List α} {i : ℕ} {x : α} (h : l[i]? = some x) (y : α) :
    (l.set i y).countP p + (if p x then 1 else 0) = l.countP p + (if p y then 1 else 0) := by
  obtain ⟨hi, rfl⟩ := List.getElem?_eq_some_iff.mp h
  have hset := List.countP_set (p := p) (a := y) hi
  have hpos : p l[i] = true → 0 < l.countP p := fun hp => List.countP_pos_iff.mpr ⟨_, List.getElem_mem hi, hp⟩
  by_cases hp : p l[i] = true
  · have := hpos hp
    rw [if_pos hp] at hset ⊢
    omega
  · rw [if_neg hp] at hset ⊢
    omega

theorem map_filter_set {p : α → Bool} {f : α → β} {l : List α} {i : ℕ} {x y : α} (h : l[i]? = some x)
    (hp : p y = p x) (hf : f y = f x) : ((l.set i y).filter p).map f = (l.filter p).map f := by
  induction l generalizing i with
  | nil => rfl
  | cons a l ih =>
    cases i with
    | zero =>
      cases h
      rw [List.set_cons_zero, List.filter_cons, List.filter_cons, hp]
      split
      · rw [List.map_cons, List.map_cons, hf]
      · rfl
    | succ i =>
      rw [List.set_cons_succ, List.filter_cons, List.filter_cons]
      split
      · rw [List.map_cons, List.map_cons, ih h]
      · exact ih h

theorem countP_split (p q : α → Bool) (l : List α) :
    l.countP p = (l.countP fun x => q x && p x) + l.countP fun x => !q x && p x := by
  induction l with
  | nil => rfl
  | cons x l ih =>
    simp only [List.countP_cons, ih]
    cases q x <;> cases p x <;> simp <;> omega

/-- Items of few kinds are few where there are few of each. -/
theorem countP_le_kinds [DecidableEq κ] (kind : α → κ) (limit : ℕ) {l : List α} (kinds : List κ) {p : α → Bool}
    (hkind : ∀ x ∈ l, p x → kind x ∈ kinds) (hlimit : ∀ k ∈ kinds, (l.countP fun x => kind x = k && p x) ≤ limit) :
    l.countP p ≤ kinds.length * limit := by
  induction kinds generalizing p with
  | nil =>
    rw [List.length_nil, Nat.zero_mul, Nat.le_zero, List.countP_eq_zero]
    exact fun x hx hp => List.not_mem_nil (hkind x hx hp)
  | cons k kinds ih =>
    have hothers : (l.countP fun x => !decide (kind x = k) && p x) ≤ kinds.length * limit := by
      refine ih (fun x hx hp => ?_) fun k' hk' => ?_
      · rw [Bool.and_eq_true, Bool.not_eq_true', decide_eq_false_iff_not] at hp
        exact (List.mem_cons.mp (hkind x hx hp.2)).resolve_left hp.1
      · refine le_trans (List.countP_mono_left fun x _ hx => ?_) (hlimit k' (List.mem_cons_of_mem k hk'))
        simp only [Bool.and_eq_true] at hx ⊢
        exact ⟨hx.1, hx.2.2⟩
    have hk := hlimit k List.mem_cons_self
    rw [countP_split p (fun x => decide (kind x = k)), List.length_cons, Nat.succ_mul]
    omega

end Counts

theorem capped_sublist {width : ℚ} {limit : ℕ} {ts us : List ℚ} (h : Capped width limit us) (hsub : ts.Sublist us) :
    Capped width limit ts where
  closed_open a := ((hsub.filter _).length_le).trans (h.closed_open a)
  open_closed a := ((hsub.filter _).length_le).trans (h.open_closed a)

/-! ### The limiters -/

section Limiter

variable {l : RateLimiter} {s t : Hardening.System} {e : String × ℚ}

/-- What a limiter keeps while time does not go back, whatever the keys of its calls. -/
structure Bounded (l : RateLimiter) (s : Hardening.System) : Prop where
  inv : Inv l s
  charges : ∀ name, Capped l.windowSeconds l.limit (s.charges name)
  calls : Capped l.windowSeconds (l.maxBuckets * l.limit) (s.calls.map (·.time))

theorem bounded_init (l : RateLimiter) (now : ℚ) : Bounded l { now := now } :=
  ⟨Hardening.System.inv_init l now, fun _ => .nil _ _, .nil _ _⟩

theorem capped_charges (h : Bounded l s) (hordered : s.Ordered e) (hstep : s.step l e = some t) (name : String) :
    Capped l.windowSeconds l.limit (t.charges name) := by
  rw [Hardening.System.charges_step hstep]
  split
  · next hcharged =>
    obtain ⟨rfl, hallowed⟩ := hcharged
    refine (h.charges _).snoc ?_
    rw [← h.inv.recent _ (sub_le_sub_right hordered.2 _)]
    exact (h.inv.answered hordered.2 e.1).allowed.mp hallowed
  · rw [List.append_nil]
    exact h.charges name

/-- What is recent is in the buckets of the table, of which there are few. -/
theorem length_recent_calls (h : Inv l s) :
    (recent (s.now - l.windowSeconds) (s.calls.map (·.time))).length ≤ l.maxBuckets * l.limit := by
  have hcount : (recent (s.now - l.windowSeconds) (s.calls.map (·.time))).length =
      s.calls.countP fun call => s.now - l.windowSeconds < call.time := by
    rw [recent, ← List.countP_eq_length_filter, List.countP_map]
    rfl
  have hbucket : ∀ name, (s.calls.countP fun call => call.bucket = name && s.now - l.windowSeconds < call.time) =
      (recent (s.now - l.windowSeconds) (content s.state.buckets name)).length := fun name => by
    rw [h.recent _ le_rfl, Hardening.System.length_recent_charges]
    exact List.countP_congr fun call _ => by simp
  rw [hcount]
  refine le_trans (countP_le_kinds (fun call => call.bucket) l.limit (s.state.buckets.map Prod.fst)
    (fun call hcall hrecent => ?_) fun name _ => ?_) ?_
  · by_contra hnot
    have hnone : content s.state.buckets call.bucket = [] := by
      refine Hardening.content_of_not_has fun hhas => hnot ?_
      obtain ⟨bucket, hbucket⟩ := Option.isSome_iff_exists.mp hhas
      exact List.mem_map.mpr ⟨(call.bucket, bucket), Dict.mem_of_get hbucket, rfl⟩
    have hpos : 0 < s.calls.countP fun c' => c'.bucket = call.bucket && s.now - l.windowSeconds < c'.time :=
      List.countP_pos_iff.mpr ⟨call, hcall, by simpa using hrecent⟩
    rw [hbucket, hnone] at hpos
    exact absurd hpos (by simp)
  · rw [hbucket]
    exact ((List.length_filter_le ..).trans (h.tidy.limited name))
  · rw [List.length_map]
    exact Nat.mul_le_mul_right _ h.bounded

/-- A window without width holds nothing. -/
theorem capped_of_nonpos {width : ℚ} (hwidth : width ≤ 0) (limit : ℕ) (ts : List ℚ) : Capped width limit ts := by
  refine ⟨fun a => ?_, fun a => ?_⟩
  · rw [List.filter_eq_nil_iff.mpr fun t _ ht => ?_]
    · exact Nat.zero_le _
    · have := of_decide_eq_true ht
      linarith
  · rw [List.filter_eq_nil_iff.mpr fun t _ ht => ?_]
    · exact Nat.zero_le _
    · have := of_decide_eq_true ht
      linarith

theorem Bounded.step (h : Bounded l s) (hordered : s.Ordered e) (hstep : s.step l e = some t) : Bounded l t := by
  have hinv := Hardening.System.inv_step h.inv hordered hstep
  refine ⟨hinv, capped_charges h hordered hstep, ?_⟩
  rcases le_or_gt l.windowSeconds 0 with hwidth | hwidth
  · exact capped_of_nonpos hwidth _ _
  have hfew := length_recent_calls hinv
  cases hstep
  dsimp only at hfew ⊢
  split
  · next hallowed =>
    rw [if_pos hallowed, List.map_append, Sliding.recent_append, List.length_append] at hfew
    rw [List.map_append]
    refine h.calls.snoc (Nat.lt_of_lt_of_le ?_ hfew)
    have hone : recent (e.2 - l.windowSeconds) [e.2] = [e.2] :=
      List.filter_eq_self.mpr fun t ht => decide_eq_true (List.mem_singleton.mp ht ▸ sub_lt_self e.2 hwidth)
    simp only [List.map_cons, List.map_nil, hone, List.length_singleton]
    omega
  · rw [List.append_nil]
    exact h.calls

/-- A key has its calls in its own bucket and in the shared one. -/
theorem capped_key (h : Bounded l s) (key : String) : Capped l.windowSeconds (2 * l.limit) (s.times key) := by
  have hcount : ∀ p : ℚ → Bool, ((s.times key).filter p).length ≤
      ((s.charges key).filter p).length + ((s.charges overflowKey).filter p).length := fun p => by
    have hlength : ∀ q : Hardening.Call → Bool, (((s.calls.filter q).map (·.time)).filter p).length =
        s.calls.countP fun call => q call && p call.time := fun q => by
      rw [← List.countP_eq_length_filter, List.countP_map, List.countP_filter]
      exact List.countP_congr fun call _ => by simp [and_comm]
    simp only [Hardening.System.times, Hardening.System.charges, hlength]
    rw [countP_split _ fun call => decide (call.bucket = key)]
    refine Nat.add_le_add (List.countP_mono_left fun call _ hcall => ?_) (List.countP_mono_left fun call hmem hcall => ?_)
    · simp only [Bool.and_eq_true] at hcall ⊢
      exact ⟨hcall.1, hcall.2.2⟩
    · simp only [Bool.and_eq_true, Bool.not_eq_true', decide_eq_false_iff_not, decide_eq_true_eq] at hcall ⊢
      obtain ⟨hother, hkey, hp⟩ := hcall
      exact ⟨((h.inv.named call hmem).2.resolve_left fun hown => hother (hown.trans hkey)), hp⟩
  refine ⟨fun a => (hcount _).trans ?_, fun a => (hcount _).trans ?_⟩
  · have := (h.charges key).closed_open a
    have := (h.charges overflowKey).closed_open a
    omega
  · have := (h.charges key).open_closed a
    have := (h.charges overflowKey).open_closed a
    omega

end Limiter

/-! ### Requests -/

structure Request where
  method : Exposition.Text
  path : Exposition.Text
  /-- The path of the route that takes the request, if one does. -/
  route : Option Exposition.Text
  host : Option String
  authorization : Text

namespace Request

/-- `_client_key`. -/
def clientKey (r : Request) : String := "client:" ++ r.host.getD "unknown"

/-- `_credential_key`, with the digest of a credential. -/
def credentialKey (digest : Text → String) (r : Request) : String :=
  let authorization := r.authorization.strip
  if authorization ≠ [] then "token:" ++ digest authorization else "token:anonymous"

def exempt (r : Request) : Bool := ["/healthz".toList, "/readyz".toList, "/metrics".toList].contains r.path

theorem clientKey_ne (r : Request) : r.clientKey ≠ overflowKey := fun h => by
  have hhead := congrArg (fun key => key.toList.head?) h
  simp [clientKey, overflowKey] at hhead

theorem credentialKey_ne (digest : Text → String) (r : Request) : r.credentialKey digest ≠ overflowKey := fun h => by
  have hhead := congrArg (fun key => key.toList.head?) h
  unfold credentialKey at hhead
  dsimp only at hhead
  split at hhead <;> simp [overflowKey] at hhead

end Request

/-- A response that is not the handler's. -/
structure ProblemResponse where
  status : ℕ
  code : String
  title : String
  detail : String
  headers : List (String × String)

/-- Why a request is not let in. -/
inductive Refusal where
  | limited (retryAfter : ℤ)
  | busy
  deriving DecidableEq

namespace Refusal

def response : Refusal → ProblemResponse
  | .limited retryAfter => ⟨429, "rate_limit_exceeded", "Request rate limit exceeded",
      "Retry after the interval declared by Retry-After.", [("Retry-After", toString retryAfter)]⟩
  | .busy => ⟨503, "server_busy", "Server request capacity reached", "Retry when another request has completed.",
      [("Retry-After", "1")]⟩

/-- The label that the refusal is counted under. -/
def route : Refusal → Exposition.Text
  | .limited _ => "rate_limited".toList
  | .busy => "concurrency_rejected".toList

end Refusal

def internalError : ProblemResponse :=
  ⟨500, "internal_error", "Internal server error", "The request could not be completed.", []⟩

/-- How the call of the handler ends. -/
inductive Outcome where
  | response (status : ℕ)
  | exception
  | cancellation
  deriving DecidableEq

inductive Place where
  | serving
  | refused (refusal : Refusal)
  | ended (outcome : Outcome)
  deriving DecidableEq

/-- A request with the times at which it was charged to its client and to its credential. -/
structure Entry where
  request : Request
  place : Place
  clientTime : ℚ
  credentialTime : ℚ

namespace Entry

/-- The label and the status that the response is counted under. -/
def label (x : Entry) : Option (Exposition.Text × ℕ) :=
  match x.place with
  | .serving => none
  | .refused refusal => some (refusal.route, refusal.response.status)
  | .ended (.response status) => some (routeLabel x.request.route x.request.path, status)
  | .ended .exception => some (routeLabel x.request.route x.request.path, internalError.status)
  | .ended .cancellation => none

def key (x : Entry) : Option Key := x.label.map fun (route, status) => (x.request.method, route, status)

/-- The request has a slot. -/
def holds (x : Entry) : Bool := !x.request.exempt && x.place = .serving

def limited (x : Entry) : Bool :=
  match x.place with
  | .refused (.limited _) => true
  | _ => false

def busy (x : Entry) : Bool := x.place = .refused .busy

def refused (x : Entry) : Bool := x.limited || x.busy

/-- The handler of the request was called, after the limiters were asked. -/
def started (x : Entry) : Bool := !x.request.exempt && !x.refused

end Entry

/-! ### The service -/

structure Settings where
  limiter : RateLimiter
  maxConcurrentRequests : ℕ

structure Service (D : Type*) where
  clients : Hardening.System
  credentials : Hardening.System
  metrics : ServiceMetrics D
  entries : List Entry

/-- `allow`, with the record of what was allowed. -/
def charge (l : RateLimiter) (s : Hardening.System) (key : String) (now : ℚ) : (Bool × ℤ) × Hardening.System :=
  ((l.allow s.state key now).1, (s.step l (key, now)).getD s)

variable {D : Type*} [Zero D] [Add D]

/-- `finalize`. -/
def finalize (x : Entry) (duration : D) (m : ServiceMetrics D) : ServiceMetrics D :=
  match x.label with
  | some (route, status) => m.observe x.request.method route status duration
  | none => m

namespace Service

def refuse (s : Service D) (x : Entry) (duration : D) : Service D :=
  { s with metrics := finalize x duration s.metrics, entries := s.entries ++ [x] }

/-- The part of `harden_request` that comes before the handler, at the times of the two limiters. -/
def letIn (settings : Settings) (digest : Text → String) (s : Service D) (r : Request) (clientTime credentialTime : ℚ)
    (duration : D) : Service D :=
  let entry (place : Place) : Entry := ⟨r, place, clientTime, credentialTime⟩
  if r.exempt then { s with entries := s.entries ++ [entry .serving] }
  else
    let ((allowed, retryAfter), clients) := charge settings.limiter s.clients r.clientKey clientTime
    if ¬ allowed then
      { s with clients, metrics := s.metrics.limited }.refuse (entry (.refused (.limited retryAfter))) duration
    else
      let ((allowed, retryAfter), credentials) :=
        charge settings.limiter s.credentials (r.credentialKey digest) credentialTime
      if ¬ allowed then
        { s with clients, credentials, metrics := s.metrics.limited }.refuse (entry (.refused (.limited retryAfter)))
          duration
      else
        let (entered, metrics) := s.metrics.enter settings.maxConcurrentRequests
        if ¬ entered then { s with clients, credentials, metrics }.refuse (entry (.refused .busy)) duration
        else { clients, credentials, metrics, entries := s.entries ++ [entry .serving] }

/-- The part of `harden_request` that comes after the handler. -/
def finish (s : Service D) (i : ℕ) (outcome : Outcome) (duration : D) : Option (Service D) :=
  match s.entries[i]? with
  | none => none
  | some x =>
    if x.place = .serving then
      let metrics := if x.request.exempt then s.metrics else s.metrics.leave
      let ended := { x with place := .ended outcome }
      some { s with metrics := finalize ended duration metrics, entries := s.entries.set i ended }
    else none

end Service

/-- What happens to the service: a request arrives, and the call of a handler ends. -/
inductive Event (D : Type*) where
  | arrive (r : Request) (clientTime credentialTime : ℚ) (duration : D)
  | finish (i : ℕ) (outcome : Outcome) (duration : D)

namespace Service

def step (settings : Settings) (digest : Text → String) (s : Service D) : Event D → Option (Service D)
  | .arrive r clientTime credentialTime duration =>
    some (s.letIn settings digest r clientTime credentialTime duration)
  | .finish i outcome duration => s.finish i outcome duration

/-- The clock does not go back. -/
def InOrder (s : Service D) : Event D → Prop
  | .arrive _ clientTime credentialTime _ => s.clients.now ≤ clientTime ∧ s.credentials.now ≤ credentialTime
  | .finish .. => True

/-- The service as it is installed. -/
def init (D : Type*) (now : ℚ) : Service D := ⟨{ now := now }, { now := now }, {}, []⟩

/-- The requests whose handlers were called, with the keys of their clients and when these were charged. -/
def clientStarts (s : Service D) : List (String × ℚ) :=
  (s.entries.filter Entry.started).map fun x => (x.request.clientKey, x.clientTime)

/-- The same of their credentials. -/
def credentialStarts (digest : Text → String) (s : Service D) : List (String × ℚ) :=
  (s.entries.filter Entry.started).map fun x => (x.request.credentialKey digest, x.credentialTime)

end Service

/-- The times of a key. -/
def timesOf (key : String) (starts : List (String × ℚ)) : List ℚ := (starts.filter (·.1 = key)).map Prod.snd

/-! ### What is counted -/

/-- The counts are those of the requests. -/
structure Books (settings : Settings) (s : Service D) : Prop where
  active : s.metrics.active = s.entries.countP Entry.holds
  bounded : s.metrics.active ≤ settings.maxConcurrentRequests
  observed : ∀ key, (s.metrics.requests.get key).getD 0 = s.entries.countP fun x => x.key = some key
  limited : s.metrics.rateLimited = s.entries.countP Entry.limited
  busy : s.metrics.rejectedConcurrency = s.entries.countP Entry.busy
  exempt : ∀ x ∈ s.entries, x.request.exempt → x.refused = false

/-- What `finalize` leaves alone. -/
structure Finalized (x : Entry) (m m' : ServiceMetrics D) : Prop where
  active : m'.active = m.active
  limited : m'.rateLimited = m.rateLimited
  busy : m'.rejectedConcurrency = m.rejectedConcurrency
  observed : ∀ key, (m'.requests.get key).getD 0 = (m.requests.get key).getD 0 + if x.key = some key then 1 else 0

theorem finalized (x : Entry) (duration : D) (m : ServiceMetrics D) : Finalized x m (finalize x duration m) := by
  unfold finalize
  cases hlabel : x.label with
  | none => exact ⟨rfl, rfl, rfl, fun key => by rw [Entry.key, hlabel]; simp⟩
  | some label =>
    refine ⟨rfl, rfl, rfl, fun key => ?_⟩
    have hkey : x.key = some (x.request.method, label.1, label.2) := by rw [Entry.key, hlabel]; rfl
    rw [hkey]
    dsimp only [ServiceMetrics.observe]
    rw [Dict.get_set]
    by_cases hsame : key = (x.request.method, label.1, label.2)
    · rw [if_pos hsame, hsame, if_pos rfl]
      rfl
    · rw [if_neg hsame, if_neg fun h => hsame (Option.some.inj h).symm, Nat.add_zero]

section Books

variable {settings : Settings} {s : Service D} {x : Entry}

omit [Zero D] [Add D] in
theorem Books.push (h : Books settings s) {clients credentials : Hardening.System} {m : ServiceMetrics D}
    (hactive : m.active = s.metrics.active + if x.holds then 1 else 0) (hbounded : m.active ≤ settings.maxConcurrentRequests)
    (hobserved : ∀ key, (m.requests.get key).getD 0 =
      (s.metrics.requests.get key).getD 0 + if x.key = some key then 1 else 0)
    (hlimited : m.rateLimited = s.metrics.rateLimited + if x.limited then 1 else 0)
    (hbusy : m.rejectedConcurrency = s.metrics.rejectedConcurrency + if x.busy then 1 else 0)
    (hexempt : x.request.exempt → x.refused = false) : Books settings ⟨clients, credentials, m, s.entries ++ [x]⟩ where
  active := by rw [List.countP_append, List.countP_singleton, ← h.active, hactive]
  bounded := hbounded
  observed key := by
    rw [List.countP_append, List.countP_singleton, ← h.observed, hobserved]
    simp
  limited := by rw [List.countP_append, List.countP_singleton, ← h.limited, hlimited]
  busy := by rw [List.countP_append, List.countP_singleton, ← h.busy, hbusy]
  exempt y hy := by
    rcases List.mem_append.mp hy with hy | hy
    · exact h.exempt y hy
    · rw [List.mem_singleton.mp hy]
      exact hexempt

/-- A request that is refused is finalized at once. -/
theorem Books.refuse (h : Books settings s) {clients credentials : Hardening.System} {m : ServiceMetrics D}
    (duration : D) (hactive : m.active = s.metrics.active) (hholds : x.holds = false)
    (hrequests : m.requests = s.metrics.requests)
    (hlimited : m.rateLimited = s.metrics.rateLimited + if x.limited then 1 else 0)
    (hbusy : m.rejectedConcurrency = s.metrics.rejectedConcurrency + if x.busy then 1 else 0)
    (hexempt : x.request.exempt = false) :
    Books settings (Service.refuse ⟨clients, credentials, m, s.entries⟩ x duration) := by
  have hfinal := finalized x duration m
  refine h.push ?_ ?_ (fun key => ?_) ?_ ?_ fun he => ?_
  · rw [hfinal.active, hactive, hholds]
    simp
  · rw [hfinal.active, hactive]
    exact h.bounded
  · rw [hfinal.observed, hrequests]
  · rw [hfinal.limited, hlimited]
  · rw [hfinal.busy, hbusy]
  · rw [hexempt] at he
    cases he

/-- What the end of a handler does. -/
structure Finished (s : Service D) (i : ℕ) (duration : D) (x y : Entry) (t : Service D) : Prop where
  there : s.entries[i]? = some x
  serving : x.place = .serving
  request : y.request = x.request
  times : y.clientTime = x.clientTime ∧ y.credentialTime = x.credentialTime
  place : ∃ outcome, y.place = .ended outcome
  after : t = { s with
    metrics := finalize y duration (if x.request.exempt then s.metrics else s.metrics.leave)
    entries := s.entries.set i y }

theorem finished {i : ℕ} {outcome : Outcome} {duration : D} {t : Service D}
    (h : s.finish i outcome duration = some t) : ∃ x y, Finished s i duration x y t := by
  unfold Service.finish at h
  cases hget : s.entries[i]? with
  | none =>
    rw [hget] at h
    cases h
  | some x =>
    rw [hget] at h
    dsimp only at h
    by_cases hplace : x.place = .serving
    · rw [if_pos hplace] at h
      exact ⟨x, { x with place := .ended outcome }, hget, hplace, rfl, ⟨rfl, rfl⟩, ⟨outcome, rfl⟩,
        (Option.some.inj h).symm⟩
    · rw [if_neg hplace] at h
      cases h

/-- A request with its handler called, or ended, is not refused. -/
theorem not_refused (hplace : x.place = .serving ∨ ∃ outcome, x.place = .ended outcome) :
    x.limited = false ∧ x.busy = false := by
  unfold Entry.limited Entry.busy
  rcases hplace with hplace | ⟨outcome, hplace⟩ <;> rw [hplace] <;> exact ⟨rfl, rfl⟩

/-- A handler that has ended gives its slot back. -/
theorem Books.finish (h : Books settings s) {i : ℕ} {duration : D} {y : Entry} {t : Service D}
    (hf : Finished s i duration x y t) : Books settings t := by
  obtain ⟨hget, hserving, hrequest, -, ⟨outcome, hended⟩, rfl⟩ := hf
  have hset : ∀ p : Entry → Bool, (s.entries.set i y).countP p + (if p x then 1 else 0) =
      s.entries.countP p + if p y then 1 else 0 := fun p => countP_set hget y
  have hfinal := finalized y duration (if x.request.exempt then s.metrics else s.metrics.leave)
  obtain ⟨hxlimited, hxbusy⟩ := not_refused (.inl hserving)
  obtain ⟨hylimited, hybusy⟩ := not_refused (.inr ⟨outcome, hended⟩)
  have hyholds : y.holds = false := by simp [Entry.holds, hended]
  have hleft : (if x.request.exempt then s.metrics else s.metrics.leave).active + (if x.holds then 1 else 0) =
      s.metrics.active := by
    cases hexempt : x.request.exempt with
    | true => simp [Entry.holds, hexempt]
    | false =>
      have hholds : x.holds = true := by simp [Entry.holds, hexempt, hserving]
      have hpos : 0 < s.metrics.active := by
        rw [h.active]
        exact List.countP_pos_iff.mpr ⟨x, List.mem_of_getElem? hget, hholds⟩
      rw [if_neg (by simp), if_pos hholds]
      exact Nat.sub_add_cancel hpos
  have hsame : ∀ {f : ServiceMetrics D → ℕ}, f s.metrics.leave = f s.metrics →
      f (if x.request.exempt then s.metrics else s.metrics.leave) = f s.metrics := fun hf => by
    split
    · rfl
    · exact hf
  refine ⟨?_, ?_, fun key => ?_, ?_, ?_, fun z hz => ?_⟩
  · have hcount := hset Entry.holds
    simp only [hyholds, Bool.false_eq_true, if_false, ← h.active] at hcount
    show (finalize y duration _).active = (s.entries.set i y).countP Entry.holds
    rw [hfinal.active]
    omega
  · rw [hfinal.active]
    have := h.bounded
    omega
  · have hcount := hset fun x => x.key = some key
    have hnone : x.key = none := by rw [Entry.key, Entry.label, hserving]; rfl
    have hbefore := hsame (f := fun m => (m.requests.get key).getD 0) rfl
    rw [hfinal.observed, hbefore, h.observed]
    simpa [hnone] using hcount.symm
  · have hcount := hset Entry.limited
    rw [hxlimited, hylimited] at hcount
    rw [hfinal.limited, hsame (f := (·.rateLimited)) rfl, h.limited]
    exact hcount.symm
  · have hcount := hset Entry.busy
    rw [hxbusy, hybusy] at hcount
    rw [hfinal.busy, hsame (f := (·.rejectedConcurrency)) rfl, h.busy]
    exact hcount.symm
  · rcases List.mem_or_eq_of_mem_set hz with hz | rfl
    · exact h.exempt z hz
    · exact fun _ => by rw [Entry.refused, hylimited, hybusy]; rfl

end Books

/-! ### What is let in -/

/-- The allowed calls of a limiter, with their keys. -/
def pairs (s : Hardening.System) : List (String × ℚ) := s.calls.map fun call => (call.key, call.time)

theorem timesOf_pairs (key : String) (s : Hardening.System) : timesOf key (pairs s) = s.times key := by
  rw [timesOf, pairs, List.filter_map, List.map_map]
  rfl

/-- A call of a limiter. -/
theorem bounded_charge {l : RateLimiter} {s : Hardening.System} {key : String} {now : ℚ} (h : Bounded l s)
    (hkey : key ≠ overflowKey) (hnow : s.now ≤ now) : Bounded l (charge l s key now).2 ∧
      pairs (charge l s key now).2 = pairs s ++ if (charge l s key now).1.1 then [(key, now)] else [] := by
  refine ⟨h.step (e := (key, now)) ⟨hkey, hnow⟩ rfl, ?_⟩
  show pairs ⟨_, _, s.calls ++ _⟩ = _
  rw [pairs, List.map_append]
  congr 1
  show List.map _ (if (l.allow s.state key now).1.1 then _ else _) = if (l.allow s.state key now).1.1 then _ else _
  split <;> rfl

/-- What holds of the service at any time. -/
structure Sound (settings : Settings) (digest : Text → String) (s : Service D) : Prop where
  books : Books settings s
  clients : Bounded settings.limiter s.clients
  credentials : Bounded settings.limiter s.credentials
  clientStarts : s.clientStarts.Sublist (pairs s.clients)
  credentialStarts : (s.credentialStarts digest).Sublist (pairs s.credentials)

section Sound

variable {settings : Settings} {digest : Text → String} {s t : Service D}

theorem sublist_push {f : Entry → String × ℚ} {l : List Entry} {x : Entry} {before after : List (String × ℚ)}
    (h : ((l.filter Entry.started).map f).Sublist before) (added : List (String × ℚ)) (hafter : after = before ++ added)
    (hx : x.started → added = [f x]) : (((l ++ [x]).filter Entry.started).map f).Sublist after := by
  rw [hafter, List.filter_append, List.map_append]
  refine h.append ?_
  cases hstarted : x.started with
  | false =>
    rw [List.filter_cons_of_neg (by simp [hstarted])]
    exact List.nil_sublist _
  | true =>
    rw [List.filter_cons_of_pos hstarted, hx hstarted]
    exact List.Sublist.refl _

theorem Sound.finish (h : Sound settings digest s) {i : ℕ} {duration : D} {x y : Entry}
    (hf : Finished s i duration x y t) : Sound settings digest t := by
  have hbooks := h.books.finish hf
  obtain ⟨hget, hserving, hrequest, ⟨hclient, hcredential⟩, hended, rfl⟩ := hf
  obtain ⟨hxlimited, hxbusy⟩ := not_refused (.inl hserving)
  obtain ⟨hylimited, hybusy⟩ := not_refused (.inr hended)
  have hstarted : y.started = x.started := by
    rw [Entry.started, Entry.started, Entry.refused, Entry.refused, hrequest, hxlimited, hxbusy, hylimited, hybusy]
  have hclients := map_filter_set (f := fun x => (x.request.clientKey, x.clientTime)) hget hstarted
    (by rw [hrequest, hclient])
  have hcredentials := map_filter_set (f := fun x => (x.request.credentialKey digest, x.credentialTime)) hget hstarted
    (by rw [hrequest, hcredential])
  refine ⟨hbooks, h.clients, h.credentials, ?_, ?_⟩
  · show ((s.entries.set i y).filter _ |>.map _).Sublist _
    rw [hclients]
    exact h.clientStarts
  · show ((s.entries.set i y).filter _ |>.map _).Sublist _
    rw [hcredentials]
    exact h.credentialStarts

theorem Sound.letIn (h : Sound settings digest s) (r : Request) {clientTime credentialTime : ℚ} (duration : D)
    (hclient : s.clients.now ≤ clientTime) (hcredential : s.credentials.now ≤ credentialTime) :
    Sound settings digest (s.letIn settings digest r clientTime credentialTime duration) := by
  obtain ⟨hclients, hclientPairs⟩ := bounded_charge h.clients r.clientKey_ne hclient
  obtain ⟨hcredentials, hcredentialPairs⟩ := bounded_charge h.credentials (r.credentialKey_ne digest) hcredential
  have hnot : ∀ place, Entry.started ⟨r, .refused place, clientTime, credentialTime⟩ = false := fun place => by
    cases place <;> simp [Entry.started, Entry.refused, Entry.limited, Entry.busy]
  unfold Service.letIn
  dsimp only
  by_cases hexempt : r.exempt = true
  · -- neither limiter is asked, and no slot is taken
    rw [if_pos hexempt]
    have hstarted : Entry.started ⟨r, .serving, clientTime, credentialTime⟩ = false := by
      simp [Entry.started, hexempt]
    refine ⟨h.books.push ?_ h.books.bounded (fun key => ?_) ?_ ?_ fun _ => ?_, h.clients, h.credentials, ?_, ?_⟩
    · simp [Entry.holds, hexempt]
    · simp [Entry.key, Entry.label]
    · simp [Entry.limited]
    · simp [Entry.busy]
    · simp [Entry.refused, Entry.limited, Entry.busy]
    · exact sublist_push h.clientStarts [] (List.append_nil _).symm (by simp [hstarted])
    · exact sublist_push h.credentialStarts [] (List.append_nil _).symm (by simp [hstarted])
  rw [if_neg hexempt]
  cases hallowed : (charge settings.limiter s.clients r.clientKey clientTime).1.1 with
  | false =>
    rw [if_pos (by simp)]
    refine ⟨h.books.refuse duration rfl ?_ rfl ?_ ?_ (by simpa using hexempt), hclients, h.credentials, ?_, ?_⟩
    · simp [Entry.holds]
    · simp [Entry.limited, ServiceMetrics.limited]
    · simp [Entry.busy, ServiceMetrics.limited]
    · exact sublist_push h.clientStarts _ hclientPairs (by simp [hnot])
    · exact sublist_push h.credentialStarts [] (List.append_nil _).symm (by simp [hnot])
  | true =>
    rw [if_neg (by simp)]
    cases hallowed' : (charge settings.limiter s.credentials (r.credentialKey digest) credentialTime).1.1 with
    | false =>
      rw [if_pos (by simp)]
      refine ⟨h.books.refuse duration rfl ?_ rfl ?_ ?_ (by simpa using hexempt), hclients, hcredentials, ?_, ?_⟩
      · simp [Entry.holds]
      · simp [Entry.limited, ServiceMetrics.limited]
      · simp [Entry.busy, ServiceMetrics.limited]
      · exact sublist_push h.clientStarts _ hclientPairs (by simp [hnot])
      · exact sublist_push h.credentialStarts _ hcredentialPairs (by simp [hnot])
    | true =>
      rw [if_neg (by simp)]
      rw [hallowed, if_pos rfl] at hclientPairs
      rw [hallowed', if_pos rfl] at hcredentialPairs
      by_cases hfull : settings.maxConcurrentRequests ≤ s.metrics.active
      · have henter : s.metrics.enter settings.maxConcurrentRequests =
            (false, { s.metrics with rejectedConcurrency := s.metrics.rejectedConcurrency + 1 }) := if_pos hfull
        rw [henter, if_pos (by simp)]
        refine ⟨h.books.refuse duration rfl ?_ rfl ?_ ?_ (by simpa using hexempt), hclients, hcredentials, ?_, ?_⟩
        · simp [Entry.holds]
        · simp [Entry.limited]
        · simp [Entry.busy]
        · exact sublist_push h.clientStarts _ hclientPairs (by simp [hnot])
        · exact sublist_push h.credentialStarts _ hcredentialPairs (by simp [hnot])
      · have henter : s.metrics.enter settings.maxConcurrentRequests =
            (true, { s.metrics with active := s.metrics.active + 1 }) := if_neg hfull
        rw [henter, if_neg (by simp)]
        refine ⟨h.books.push ?_ ?_ (fun key => ?_) ?_ ?_ fun he => absurd he hexempt, hclients, hcredentials, ?_, ?_⟩
        · simp [Entry.holds, hexempt]
        · exact Nat.lt_of_not_le hfull
        · simp [Entry.key, Entry.label]
        · simp [Entry.limited]
        · simp [Entry.busy]
        · exact sublist_push h.clientStarts _ hclientPairs fun _ => rfl
        · exact sublist_push h.credentialStarts _ hcredentialPairs fun _ => rfl

omit [Zero D] [Add D] in
theorem sound_init (settings : Settings) (digest : Text → String) (now : ℚ) :
    Sound settings digest (Service.init D now) :=
  ⟨⟨rfl, Nat.zero_le _, fun _ => rfl, rfl, rfl, by simp [Service.init]⟩, bounded_init _ now, bounded_init _ now,
    List.Sublist.refl _, List.Sublist.refl _⟩

theorem sound_run {now : ℚ} {es : List (Event D)}
    (h : Run (Service.step settings digest) Service.InOrder (Service.init D now) es s) : Sound settings digest s := by
  refine h.invariant (fun s e t hs hok hstep => ?_) (sound_init settings digest now)
  cases e with
  | arrive r clientTime credentialTime duration =>
    obtain rfl := Option.some.inj hstep
    exact hs.letIn r duration hok.1 hok.2
  | finish i outcome duration =>
    obtain ⟨x, y, hf⟩ := finished hstep
    exact hs.finish hf

end Sound

/-- What is promised of the service: the counts are those of the requests, the slots are never exceeded, and in any
window few handlers are called, for all requests, for those of a client and for those of a credential. -/
structure Served (settings : Settings) (digest : Text → String) (s : Service D) : Prop where
  books : Books settings s
  total : Capped settings.limiter.windowSeconds (settings.limiter.maxBuckets * settings.limiter.limit)
    (s.clientStarts.map Prod.snd)
  client : ∀ key, Capped settings.limiter.windowSeconds (2 * settings.limiter.limit) (timesOf key s.clientStarts)
  credential : ∀ key, Capped settings.limiter.windowSeconds (2 * settings.limiter.limit)
    (timesOf key (s.credentialStarts digest))

theorem served_run {settings : Settings} {digest : Text → String} {s : Service D} {now : ℚ} {es : List (Event D)}
    (h : Run (Service.step settings digest) Service.InOrder (Service.init D now) es s) : Served settings digest s := by
  have hsound := sound_run h
  refine ⟨hsound.books, ?_, fun key => ?_, fun key => ?_⟩
  · refine capped_sublist ?_ (hsound.clientStarts.map Prod.snd)
    rw [pairs, List.map_map]
    exact hsound.clients.calls
  · refine capped_sublist ?_ ((hsound.clientStarts.filter _).map Prod.snd)
    have hkey := capped_key hsound.clients key
    rwa [← timesOf_pairs] at hkey
  · refine capped_sublist ?_ ((hsound.credentialStarts.filter _).map Prod.snd)
    have hkey := capped_key hsound.credentials key
    rwa [← timesOf_pairs] at hkey

/-! ### A busy service -/

instance (s : Service D) : DecidablePred s.InOrder
  | .arrive .. => inferInstanceAs (Decidable (_ ∧ _))
  | .finish .. => inferInstanceAs (Decidable True)

theorem narrow_limit : 1 ≤ 2 := Nat.succ_pos 1

theorem narrow_buckets : 2 ≤ 2 := Nat.le_refl 2

/-- Two requests of a minute, one at a time. -/
def narrow : Settings := ⟨⟨2, 60, 2, narrow_limit, narrow_buckets⟩, 1⟩

def asked (host : String) : Request := ⟨"GET".toList, "/v1/runs".toList, some "/v1/runs".toList, some host, []⟩

/-- A second request comes while the handler of the first runs, and a third when two are charged to nobody's
credential. -/
def rushing : List (Event ℕ) :=
  [.arrive (asked "a") 0 0 1, .arrive (asked "b") 1 1 1, .finish 0 .exception 3, .arrive (asked "c") 4 4 1]

theorem served_narrow : ∃ s : Service ℕ,
    s.entries.map Entry.place = [.ended .exception, .refused .busy, .refused (.limited 57)] ∧
      Served narrow (fun _ => "") s := by
  have hexec : (Runs.exec (Service.step narrow fun _ => "") Service.InOrder (Service.init ℕ 0) rushing).any fun s =>
      s.entries.map Entry.place = [.ended .exception, .refused .busy, .refused (.limited 57)] := by
    decide +kernel
  obtain ⟨s, hs, hplaces⟩ := (Option.any_eq_true ..).mp hexec
  exact ⟨s, of_decide_eq_true hplaces, served_run (Runs.run_of_exec hs)⟩

end AutomlApi.Serving
