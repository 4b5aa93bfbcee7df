import AutomlApi.Library.Dict
import AutomlApi.Library.Digits
import AutomlApi.Library.Exposition
import Mathlib.Data.List.Dedup
import Mathlib.Data.List.Induction
import Mathlib.Data.List.Sort
import Mathlib.Data.String.Basic

/-! The metrics of the service and the text that `/metrics` serves. A route label is the path
of the request where no route matched, and labels go into the text as they are. -/

namespace AutomlApi.Hardening.Metrics

-- Only the elements of a list are asked, not every character.
attribute [local instance (2000)] List.decidableBAll List.decidableBEx

open Exposition (Text Line Sample Plain)

/-- A method, a route and a status. -/
abbrev Key := Text × Text × ℕ

def Key.route (key : Key) : Text × Text := (key.1, key.2.1)

/-- `_route_label`. -/
def routeLabel (route : Option Text) (path : Text) : Text :=
  match route with
  | some (c :: cs) => c :: cs
  | _ => path

/-- `ServiceMetrics`, with durations in `D`. -/
structure ServiceMetrics (D : Type*) where
  requests : Dict Key ℕ := []
  durationSeconds : Dict (Text × Text) D := []
  rateLimited : ℕ := 0
  rejectedConcurrency : ℕ := 0
  active : ℕ := 0
  activeStreams : ℕ := 0
  activeStreamsByTenant : Dict String ℕ := []
  rejectedStreams : ℕ := 0

namespace ServiceMetrics

variable {D : Type*}

def enter (maximum : ℕ) (m : ServiceMetrics D) : Bool × ServiceMetrics D :=
  if maximum ≤ m.active then (false, { m with rejectedConcurrency := m.rejectedConcurrency + 1 })
  else (true, { m with active := m.active + 1 })

def leave (m : ServiceMetrics D) : ServiceMetrics D := { m with active := m.active - 1 }

/-- `rate_limited`. -/
def limited (m : ServiceMetrics D) : ServiceMetrics D := { m with rateLimited := m.rateLimited + 1 }

def enterStream (maximum : ℕ) (tenantId : Option String) (maximumPerTenant : Option ℕ) (m : ServiceMetrics D) :
    Bool × ServiceMetrics D :=
  let tenantActive := (tenantId.bind m.activeStreamsByTenant.get).getD 0
  let tenantFull := tenantId.isSome && maximumPerTenant.any (· ≤ tenantActive)
  if maximum ≤ m.activeStreams ∨ tenantFull then (false, { m with rejectedStreams := m.rejectedStreams + 1 })
  else
    (true, { m with
      activeStreams := m.activeStreams + 1
      activeStreamsByTenant := match tenantId with
        | some tenantId => m.activeStreamsByTenant.set tenantId (tenantActive + 1)
        | none => m.activeStreamsByTenant })

def leaveStream (tenantId : Option String) (m : ServiceMetrics D) : ServiceMetrics D :=
  { m with
    activeStreams := m.activeStreams - 1
    activeStreamsByTenant := match tenantId with
      | some tenantId =>
        let active := (m.activeStreamsByTenant.get tenantId).getD 0
        if 1 < active then m.activeStreamsByTenant.set tenantId (active - 1)
        else m.activeStreamsByTenant.erase tenantId
      | none => m.activeStreamsByTenant }

variable [Zero D] [Add D]

def observe (method route : Text) (status : ℕ) (duration : D) (m : ServiceMetrics D) : ServiceMetrics D :=
  let key : Key := (method, route, status)
  { m with
    requests := m.requests.set key ((m.requests.get key).getD 0 + 1)
    durationSeconds :=
      m.durationSeconds.set (method, route) ((m.durationSeconds.get (method, route)).getD 0 + duration) }

end ServiceMetrics

/-! ### The text -/

/-- `str` of a count or a status. -/
def decimal (n : ℕ) : Text := Nat.toDigits 10 n

/-- The order of the tuples. -/
def routeBefore (a b : Text × Text) : Bool := a.1 < b.1 ∨ a.1 = b.1 ∧ a.2 ≤ b.2

def keyBefore (a b : Key) : Bool :=
  a.1 < b.1 ∨ a.1 = b.1 ∧ (a.2.1 < b.2.1 ∨ a.2.1 = b.2.1 ∧ a.2.2 ≤ b.2.2)

def requestLine (method route : Text) (status count : ℕ) : Text :=
  let labels := "method=\"".toList ++ method ++ "\",route=\"".toList ++ route ++ "\",status=\"".toList ++
    decimal status ++ ['"']
  "automl_http_requests_total\x7b".toList ++ labels ++ "\x7d ".toList ++ decimal count

/-- The type of a number without labels, and the number. -/
def numberLines (name kind : Text) (n : ℕ) : List Text :=
  ["# TYPE ".toList ++ name ++ ' ' :: kind, name ++ ' ' :: decimal n]

/-- The numbers without labels, with their types. -/
def ServiceMetrics.fields {D : Type*} (m : ServiceMetrics D) : List (Text × Text × ℕ) :=
  [("automl_http_active_requests".toList, "gauge".toList, m.active),
    ("automl_http_rate_limited_total".toList, "counter".toList, m.rateLimited),
    ("automl_http_concurrency_rejected_total".toList, "counter".toList, m.rejectedConcurrency),
    ("automl_sse_active_connections".toList, "gauge".toList, m.activeStreams),
    ("automl_sse_rejected_connections_total".toList, "counter".toList, m.rejectedStreams)]

/-- `sorted(self._requests.items())`. -/
def ServiceMetrics.sortedRequests {D : Type*} (m : ServiceMetrics D) : List (Key × ℕ) :=
  m.requests.insertionSort fun a b => keyBefore a.1 b.1

/-- `sorted(self._duration_seconds.items())`. -/
def ServiceMetrics.sortedDurations {D : Type*} (m : ServiceMetrics D) : List ((Text × Text) × D) :=
  m.durationSeconds.insertionSort fun a b => routeBefore a.1 b.1

section Render

variable {D : Type*} (fixed : D → Text)

/-- A duration is written as `fixed` writes it, with six digits. -/
def durationLine (method route : Text) (duration : D) : Text :=
  let labels := "method=\"".toList ++ method ++ "\",route=\"".toList ++ route ++ ['"']
  "automl_http_request_duration_seconds_total\x7b".toList ++ labels ++ "\x7d ".toList ++ fixed duration

def ServiceMetrics.textLines (m : ServiceMetrics D) : List Text :=
  ["# HELP automl_http_requests_total Total HTTP requests.".toList,
    "# TYPE automl_http_requests_total counter".toList] ++
  m.sortedRequests.map
    (fun ((method, route, status), count) => requestLine method route status count) ++
  ["# HELP automl_http_request_duration_seconds_total Cumulative request duration.".toList,
    "# TYPE automl_http_request_duration_seconds_total counter".toList] ++
  m.sortedDurations.map
    (fun ((method, route), duration) => durationLine fixed method route duration) ++
  m.fields.flatMap fun (name, kind, n) => numberLines name kind n

def ServiceMetrics.render (m : ServiceMetrics D) : Text := ['\n'].intercalate (m.textLines fixed) ++ ['\n']

end Render

/-! ### Histories -/

inductive Call (D : Type*) where
  | enter (maximum : ℕ)
  | leave
  | limited
  | enterStream (maximum : ℕ) (tenantId : Option String) (maximumPerTenant : Option ℕ)
  | leaveStream (tenantId : Option String)
  | observe (method route : Text) (status : ℕ) (duration : D)

section Histories

variable {D : Type*} [Zero D] [Add D]

def Call.apply (m : ServiceMetrics D) : Call D → ServiceMetrics D
  | .enter maximum => (m.enter maximum).2
  | .leave => m.leave
  | .limited => m.limited
  | .enterStream maximum tenantId maximumPerTenant => (m.enterStream maximum tenantId maximumPerTenant).2
  | .leaveStream tenantId => m.leaveStream tenantId
  | .observe method route status duration => m.observe method route status duration

/-- The metrics after a history of calls. -/
def after (es : List (Call D)) : ServiceMetrics D := es.foldl Call.apply {}

/-- The requests of a history. -/
def observed (es : List (Call D)) : List (Key × D) :=
  es.filterMap fun
    | .observe method route status duration => some ((method, route, status), duration)
    | _ => none

def keys (es : List (Call D)) : List Key := (observed es).map Prod.fst

def routes (es : List (Call D)) : List (Text × Text) := (observed es).map (Key.route ·.1)

/-- The times of a route, in their order. -/
def times (es : List (Call D)) (route : Text × Text) : List D :=
  ((observed es).filter fun o => o.1.route = route).map Prod.snd

/-- The time that a history spent on a route, summed in its order. -/
def spent (es : List (Call D)) (route : Text × Text) : D := (times es route).foldl (· + ·) 0

/-! ### What was recorded -/

def requestsTotal : Text := "automl_http_requests_total".toList

def durationTotal : Text := "automl_http_request_duration_seconds_total".toList

/-- The counter of a key. -/
def counter (key : Key) (count : ℕ) : Sample :=
  ⟨requestsTotal, [("method".toList, key.1), ("route".toList, key.2.1), ("status".toList, decimal key.2.2)],
    decimal count, none⟩

/-- A number without labels. -/
def number (name kind : Text) (n : ℕ) : List Line := [.type name kind, .sample ⟨name, [], decimal n, none⟩]

def numbers (m : ServiceMetrics D) : List Line := m.fields.flatMap fun f => number f.1 f.2.1 f.2.2

def requestsHead : List Line :=
  [.help requestsTotal "Total HTTP requests.".toList, .type requestsTotal "counter".toList]

def durationHead : List Line :=
  [.help durationTotal "Cumulative request duration.".toList, .type durationTotal "counter".toList]

variable (fixed : D → Text)

/-- The time of a route. -/
def duration (route : Text × Text) (total : D) : Sample :=
  ⟨durationTotal, [("method".toList, route.1), ("route".toList, route.2)], fixed total, none⟩

/-- The lines for a history: each key that was observed has its count, each route its time,
and the other numbers are as the calls left them. -/
def recorded (es : List (Call D)) : List Line :=
  requestsHead ++ (keys es).dedup.map (fun key => Line.sample (counter key ((keys es).count key))) ++
  durationHead ++ (routes es).dedup.map (fun route => Line.sample (duration fixed route (spent es route))) ++
  numbers (after es)

/-- The text of a history is read, and as what was recorded. -/
def Faithful (numeric : Text → Bool) (es : List (Call D)) : Prop :=
  ∃ ls, Exposition.parse numeric ((after es).render fixed) = some ls ∧ ls.Perm (recorded fixed es)

end Histories

/-! ### The counters -/

section Histories

variable {D : Type*}

theorem observed_append (es es' : List (Call D)) : observed (es ++ es') = observed es ++ observed es' :=
  List.filterMap_append

theorem keys_append (es es' : List (Call D)) : keys (es ++ es') = keys es ++ keys es' := by
  rw [keys, observed_append, List.map_append, keys, keys]

theorem routes_append (es es' : List (Call D)) : routes (es ++ es') = routes es ++ routes es' := by
  rw [routes, observed_append, List.map_append, routes, routes]

theorem times_append (es es' : List (Call D)) (route : Text × Text) :
    times (es ++ es') route = times es route ++ times es' route := by
  rw [times, observed_append, List.filter_append, List.map_append, times, times]

theorem times_eq_nil {es : List (Call D)} {route : Text × Text} (h : route ∉ routes es) : times es route = [] := by
  have hnone : (observed es).filter (fun o => o.1.route = route) = [] :=
    List.filter_eq_nil_iff.mpr fun o ho hroute => h (List.mem_map.mpr ⟨o, ho, of_decide_eq_true hroute⟩)
  rw [times, hnone, List.map_nil]

variable [Zero D] [Add D]

theorem after_append (es : List (Call D)) (e : Call D) : after (es ++ [e]) = e.apply (after es) := by
  rw [after, List.foldl_append]
  rfl

/-- A call counts what it observes and nothing else. -/
theorem apply_counters (m : ServiceMetrics D) (e : Call D) :
    ((e.apply m).requests = m.requests ∧ (e.apply m).durationSeconds = m.durationSeconds ∧ observed [e] = []) ∨
      ∃ method route status duration, e = .observe method route status duration := by
  cases e with
  | observe method route status duration => exact .inr ⟨method, route, status, duration, rfl⟩
  | leave | limited | leaveStream => exact .inl ⟨rfl, rfl, rfl⟩
  | enter maximum =>
    refine .inl ?_
    simp only [Call.apply, ServiceMetrics.enter]
    split <;> exact ⟨rfl, rfl, rfl⟩
  | enterStream maximum tenantId maximumPerTenant =>
    refine .inl ?_
    simp only [Call.apply, ServiceMetrics.enterStream]
    split <;> exact ⟨rfl, rfl, rfl⟩

theorem get_requests (es : List (Call D)) (key : Key) :
    (after es).requests.get key = if key ∈ keys es then some ((keys es).count key) else none := by
  induction es using List.reverseRecOn with
  | nil => rfl
  | append_singleton es e ih =>
    rw [after_append, keys_append]
    rcases apply_counters (after es) e with ⟨hrequests, -, hnone⟩ | ⟨method, path, status, time, rfl⟩
    · have hkeys : keys [e] = [] := by rw [keys, hnone, List.map_nil]
      rw [hrequests, ih, hkeys, List.append_nil]
    · have hkeys : keys [Call.observe method path status time] = [(method, path, status)] := rfl
      have happly : (Call.apply (after es) (.observe method path status time)).requests =
          (after es).requests.set (method, path, status)
            (((after es).requests.get (method, path, status)).getD 0 + 1) := rfl
      rw [hkeys, happly, Dict.get_set]
      by_cases hkey : key = (method, path, status)
      · subst hkey
        rw [ih, if_pos rfl, if_pos (List.mem_append_right _ (List.mem_singleton_self _)), List.count_append,
          List.count_singleton_self]
        split
        · rfl
        · rename_i hmem
          rw [List.count_eq_zero_of_not_mem hmem]
          rfl
      · have hzero : [(method, path, status)].count key = 0 :=
          List.count_eq_zero_of_not_mem fun hmem => hkey (List.mem_singleton.mp hmem)
        rw [if_neg hkey, ih, List.count_append, hzero, Nat.add_zero]
        simp only [List.mem_append, List.mem_singleton, hkey, or_false]

theorem get_durationSeconds (es : List (Call D)) (route : Text × Text) :
    (after es).durationSeconds.get route = if route ∈ routes es then some (spent es route) else none := by
  induction es using List.reverseRecOn with
  | nil => rfl
  | append_singleton es e ih =>
    have hspent : spent (es ++ [e]) route = (times [e] route).foldl (· + ·) (spent es route) := by
      rw [spent, times_append, List.foldl_append, spent]
    rw [after_append, routes_append, hspent]
    rcases apply_counters (after es) e with ⟨-, hdurations, hnone⟩ | ⟨method, path, status, time, rfl⟩
    · have hroutes : routes [e] = [] := by rw [routes, hnone, List.map_nil]
      rw [hdurations, ih, times_eq_nil (hroutes ▸ List.not_mem_nil), hroutes, List.append_nil]
      rfl
    · have hroutes : routes [Call.observe method path status time] = [(method, path)] := rfl
      have happly : (Call.apply (after es) (.observe method path status time)).durationSeconds =
          (after es).durationSeconds.set (method, path)
            (((after es).durationSeconds.get (method, path)).getD 0 + time) := rfl
      rw [hroutes, happly, Dict.get_set]
      by_cases hroute : route = (method, path)
      · subst hroute
        have htimes : times [Call.observe method path status time] (method, path) = [time] := by
          have hkept : (observed [Call.observe method path status time]).filter (fun o => o.1.route = (method, path)) =
              [((method, path, status), time)] := List.filter_cons_of_pos (decide_eq_true rfl)
          rw [times, hkept, List.map_singleton]
        rw [ih, if_pos rfl, if_pos (List.mem_append_right _ (List.mem_singleton_self _)), htimes]
        split
        · rfl
        · rename_i hmem
          have hzero : spent es (method, path) = 0 := congrArg (List.foldl (· + ·) 0) (times_eq_nil hmem)
          rw [hzero]
          rfl
      · have hmem : route ∉ routes [Call.observe method path status time] :=
          fun hmem => hroute (List.mem_singleton.mp hmem)
        rw [if_neg hroute, ih, times_eq_nil hmem]
        simp only [List.mem_append, List.mem_singleton, hroute, or_false]
        rfl

theorem nodup_requests (es : List (Call D)) : ((after es).requests.map Prod.fst).Nodup := by
  induction es using List.reverseRecOn with
  | nil => exact List.nodup_nil
  | append_singleton es e ih =>
    rw [after_append]
    rcases apply_counters (after es) e with ⟨hrequests, -, -⟩ | ⟨method, route, status, duration, rfl⟩
    · rwa [hrequests]
    · exact Dict.nodup_set ih _ _

theorem nodup_durationSeconds (es : List (Call D)) : ((after es).durationSeconds.map Prod.fst).Nodup := by
  induction es using List.reverseRecOn with
  | nil => exact List.nodup_nil
  | append_singleton es e ih =>
    rw [after_append]
    rcases apply_counters (after es) e with ⟨-, hdurations, -⟩ | ⟨method, route, status, duration, rfl⟩
    · rwa [hdurations]
    · exact Dict.nodup_set ih _ _

/-- A table is the list of its keys with what it has for each. -/
theorem perm_of_get {κ α : Type*} [DecidableEq κ] {d : Dict κ α} {ks : List κ} {f : κ → α}
    (hd : (d.map Prod.fst).Nodup) (hks : ks.Nodup) (h : ∀ k, d.get k = if k ∈ ks then some (f k) else none) :
    d.Perm (ks.map fun k => (k, f k)) := by
  have hnodup : (ks.map fun k => (k, f k)).Nodup := hks.map fun k l hkl => congrArg Prod.fst hkl
  refine (List.perm_ext_iff_of_nodup hd.of_map hnodup).mpr fun p => ⟨fun hp => ?_, fun hp => ?_⟩
  · have hget := Dict.get_of_mem hd hp
    rw [h] at hget
    split at hget
    · rename_i hmem
      exact List.mem_map.mpr ⟨p.1, hmem, Prod.ext rfl (Option.some.inj hget)⟩
    · cases hget
  · obtain ⟨k, hk, rfl⟩ := List.mem_map.mp hp
    exact Dict.mem_of_get ((h k).trans (if_pos hk))

theorem requests_perm (es : List (Call D)) :
    (after es).requests.Perm ((keys es).dedup.map fun key => (key, (keys es).count key)) :=
  perm_of_get (nodup_requests es) (List.nodup_dedup _) fun key => by simp only [get_requests, List.mem_dedup]

theorem durationSeconds_perm (es : List (Call D)) :
    (after es).durationSeconds.Perm ((routes es).dedup.map fun route => (route, spent es route)) :=
  perm_of_get (nodup_durationSeconds es) (List.nodup_dedup _) fun route => by
    simp only [get_durationSeconds, List.mem_dedup]

end Histories

/-! ### The lines of the text -/

theorem intercalate_lines {ls : List Text} (h : ls ≠ []) :
    ['\n'].intercalate ls ++ ['\n'] = ls.flatMap (· ++ ['\n']) := by
  induction ls with
  | nil => exact absurd rfl h
  | cons l ls ih =>
    cases ls with
    | nil => simp [List.intercalate]
    | cons l' ls =>
      have hrest := ih (List.cons_ne_nil _ _)
      rw [List.flatMap_cons, ← hrest]
      simp [List.intercalate]

theorem sample_raw_of_labels (name value : Text) {ls : List (Text × Text)} (h : ls ≠ []) :
    Sample.raw ⟨name, ls, value, none⟩ = name ++ '{' :: (Exposition.rawLabels ls ++ '}' :: ' ' :: value) := by
  rw [Sample.raw, if_neg h]
  simp

theorem raw_counter (key : Key) (count : ℕ) :
    (counter key count).raw = requestLine key.1 key.2.1 key.2.2 count := by
  have hopen : "automl_http_requests_total\x7b".toList = requestsTotal ++ ['{'] := by decide +kernel
  have hmethod : "method=\"".toList = "method".toList ++ ['=', '"'] := by decide +kernel
  have hroute : "\",route=\"".toList = '"' :: ',' :: ("route".toList ++ ['=', '"']) := by decide +kernel
  have hstatus : "\",status=\"".toList = '"' :: ',' :: ("status".toList ++ ['=', '"']) := by decide +kernel
  have hclose : "\x7d ".toList = ['}', ' '] := by decide +kernel
  delta requestLine
  rw [counter, sample_raw_of_labels _ _ (List.cons_ne_nil _ _), hopen, hmethod, hroute,
    hstatus, hclose]
  generalize requestsTotal = name, "method".toList = method, "route".toList = route, "status".toList = status
  simp [Exposition.rawLabels, Exposition.rawLabel]

section Render

variable {D : Type*} (fixed : D → Text)

theorem raw_duration (route : Text × Text) (total : D) :
    (duration fixed route total).raw = durationLine fixed route.1 route.2 total := by
  have hopen : "automl_http_request_duration_seconds_total\x7b".toList = durationTotal ++ ['{'] := by decide +kernel
  have hmethod : "method=\"".toList = "method".toList ++ ['=', '"'] := by decide +kernel
  have hroute : "\",route=\"".toList = '"' :: ',' :: ("route".toList ++ ['=', '"']) := by decide +kernel
  have hclose : "\x7d ".toList = ['}', ' '] := by decide +kernel
  delta durationLine
  rw [duration, sample_raw_of_labels _ _ (List.cons_ne_nil _ _), hopen, hmethod, hroute,
    hclose]
  generalize durationTotal = name, "method".toList = method, "route".toList = route
  simp [Exposition.rawLabels, Exposition.rawLabel]

/-- The lines of a text, as the format knows them. -/
def ServiceMetrics.lines (m : ServiceMetrics D) : List Line :=
  requestsHead ++ m.sortedRequests.map (fun p => Line.sample (counter p.1 p.2)) ++
  durationHead ++ m.sortedDurations.map (fun p => Line.sample (duration fixed p.1 p.2)) ++
  numbers m

theorem raw_number (name kind : Text) (n : ℕ) : (number name kind n).map Line.raw = numberLines name kind n := by
  have hsample : Sample.raw ⟨name, [], decimal n, none⟩ = name ++ ' ' :: decimal n := by
    rw [Sample.raw, if_pos rfl, List.append_nil]
  rw [number, List.map_cons, List.map_singleton, Line.raw_type, Line.raw_sample, hsample, numberLines]

theorem textLines_eq (m : ServiceMetrics D) : m.textLines fixed = (m.lines fixed).map Line.raw := by
  have hrequests : requestsHead.map Line.raw = ["# HELP automl_http_requests_total Total HTTP requests.".toList,
      "# TYPE automl_http_requests_total counter".toList] := by decide +kernel
  have hdurations : durationHead.map Line.raw =
      ["# HELP automl_http_request_duration_seconds_total Cumulative request duration.".toList,
        "# TYPE automl_http_request_duration_seconds_total counter".toList] := by decide +kernel
  have hcounters : ∀ ps : List (Key × ℕ), (ps.map fun p => Line.sample (counter p.1 p.2)).map Line.raw =
      ps.map fun ((method, route, status), count) => requestLine method route status count := fun ps =>
    List.map_map.trans (List.map_congr_left fun p _ => raw_counter p.1 p.2)
  have htimes : ∀ ps : List ((Text × Text) × D), (ps.map fun p => Line.sample (duration fixed p.1 p.2)).map Line.raw =
      ps.map fun ((method, route), duration) => durationLine fixed method route duration := fun ps =>
    List.map_map.trans (List.map_congr_left fun p _ => raw_duration fixed p.1 p.2)
  have hnumbers : (numbers m).map Line.raw = m.fields.flatMap fun (name, kind, n) => numberLines name kind n := by
    rw [numbers, List.map_flatMap]
    exact List.flatMap_congr fun f _ => raw_number f.1 f.2.1 f.2.2
  delta ServiceMetrics.textLines
  simp only [ServiceMetrics.lines, List.map_append, hrequests, hdurations, hcounters, htimes, hnumbers]

theorem render_eq (m : ServiceMetrics D) : m.render fixed = Exposition.write (m.lines fixed) := by
  have hne : m.textLines fixed ≠ [] := by
    rw [textLines_eq]
    exact List.cons_ne_nil _ _
  rw [ServiceMetrics.render, intercalate_lines hne, textLines_eq, List.flatMap_map, Exposition.write]

end Render

/-! ### What is read -/

/-- A duration is written as a number of the format. -/
structure Formats {D : Type*} (numeric : Text → Bool) (fixed : D → Text) : Prop where
  counts : ∀ n, numeric (decimal n)
  durations : ∀ d, numeric (fixed d)
  ne_nil : ∀ d, fixed d ≠ []
  solid : ∀ d, ∀ c ∈ fixed d, Exposition.solid c ∧ c ≠ '{'

theorem solid_of_isDigit {c : Char} (h : c.isDigit) : Exposition.solid c ∧ c ≠ '{' := by
  have hname : Exposition.nameChar c := by
    simp only [Exposition.nameChar, Exposition.labelChar, Char.isAlphanum, h, Bool.or_true, Bool.true_or]
  refine ⟨Exposition.solid_of_nameChar hname, ?_⟩
  rintro rfl
  exact absurd h (by decide)

theorem isDigit_decimal (n : ℕ) : ∀ c ∈ decimal n, c.isDigit := fun _ hc =>
  Nat.isDigit_of_mem_toDigits (by decide) (by decide) hc

theorem decimal_solid (n : ℕ) : ∀ c ∈ decimal n, Exposition.solid c ∧ c ≠ '{' := fun c hc =>
  solid_of_isDigit (isDigit_decimal n c hc)

theorem decimal_ne_nil (n : ℕ) : decimal n ≠ [] := Nat.toDigits_ne_nil

theorem decimal_injective {m n : ℕ} (h : decimal m = decimal n) : m = n := by
  have hvalue := congrArg (Nat.ofDigitChars 10 · 0) h
  simpa only [decimal, Nat.ofDigitChars_ten_toDigits] using hvalue

theorem decimal_plain (n : ℕ) : Plain (decimal n) := fun c hc => Exposition.special_of_solid (decimal_solid n c hc).1

section Reading

variable {D : Type*} {numeric : Text → Bool} {fixed : D → Text}

theorem isName_requestsTotal : Exposition.isName requestsTotal := by decide +kernel

theorem isName_durationTotal : Exposition.isName durationTotal := by decide +kernel

theorem formed_counter (h : Formats numeric fixed) (key : Key) (count : ℕ) : (counter key count).Formed numeric where
  name := isName_requestsTotal
  labels := by
    have hnames : ∀ name ∈ ["method".toList, "route".toList, "status".toList], Exposition.isLabelName name := by
      decide +kernel
    have hlabels : (counter key count).labels.map Prod.fst = ["method".toList, "route".toList, "status".toList] := rfl
    exact fun l hl => hnames l.1 (hlabels ▸ List.mem_map_of_mem hl)
  value := decimal_ne_nil count
  solid := decimal_solid count
  numeric := h.counts count
  timestamp := rfl

theorem formed_duration (h : Formats numeric fixed) (route : Text × Text) (total : D) :
    (duration fixed route total).Formed numeric where
  name := isName_durationTotal
  labels := by
    have hnames : ∀ name ∈ ["method".toList, "route".toList], Exposition.isLabelName name := by decide +kernel
    have hlabels : (duration fixed route total).labels.map Prod.fst = ["method".toList, "route".toList] := rfl
    exact fun l hl => hnames l.1 (hlabels ▸ List.mem_map_of_mem hl)
  value := h.ne_nil total
  solid := h.solid total
  numeric := h.durations total
  timestamp := rfl

theorem formed_number (h : Formats numeric fixed) {name kind : Text} (hname : Exposition.isName name)
    (hkind : kind ∈ Exposition.valueTypes) (n : ℕ) : ∀ l ∈ number name kind n, l.Formed numeric := by
  intro l hl
  rcases List.mem_cons.mp hl with rfl | hl
  · exact ⟨hname, hkind⟩
  · cases List.mem_singleton.mp hl
    exact ⟨hname, fun l hl => absurd hl List.not_mem_nil, decimal_ne_nil n, decimal_solid n, h.counts n, rfl⟩

theorem fields_names (m : ServiceMetrics D) :
    m.fields.map Prod.fst = ["automl_http_active_requests".toList, "automl_http_rate_limited_total".toList,
      "automl_http_concurrency_rejected_total".toList, "automl_sse_active_connections".toList,
      "automl_sse_rejected_connections_total".toList] := rfl

theorem fields_kinds (m : ServiceMetrics D) :
    m.fields.map (·.2.1) = ["gauge".toList, "counter".toList, "counter".toList, "gauge".toList, "counter".toList] := rfl

theorem fields_formed (m : ServiceMetrics D) :
    ∀ f ∈ m.fields, Exposition.isName f.1 ∧ f.2.1 ∈ Exposition.valueTypes := by
  have hnames : ∀ name ∈ m.fields.map Prod.fst, Exposition.isName name := by
    rw [fields_names]
    decide +kernel
  have hkinds : ∀ kind ∈ m.fields.map (·.2.1), kind ∈ Exposition.valueTypes := by
    rw [fields_kinds]
    decide +kernel
  exact fun f hf => ⟨hnames _ (List.mem_map_of_mem hf), hkinds _ (List.mem_map_of_mem hf)⟩

theorem lines_formed (h : Formats numeric fixed) (m : ServiceMetrics D) : ∀ l ∈ m.lines fixed, l.Formed numeric := by
  have hrequests : ∀ l ∈ requestsHead, l.Formed numeric := by
    intro l hl
    rcases List.mem_cons.mp hl with rfl | hl
    · exact ⟨isName_requestsTotal, by decide +kernel, by decide +kernel⟩
    · cases List.mem_singleton.mp hl
      exact ⟨isName_requestsTotal, by decide +kernel⟩
  have hdurations : ∀ l ∈ durationHead, l.Formed numeric := by
    intro l hl
    rcases List.mem_cons.mp hl with rfl | hl
    · exact ⟨isName_durationTotal, by decide +kernel, by decide +kernel⟩
    · cases List.mem_singleton.mp hl
      exact ⟨isName_durationTotal, by decide +kernel⟩
  intro l hl
  simp only [ServiceMetrics.lines, numbers, List.mem_append, List.mem_map, List.mem_flatMap] at hl
  rcases hl with (((hl | ⟨p, -, rfl⟩) | hl) | ⟨p, -, rfl⟩) | ⟨f, hf, hl⟩
  · exact hrequests l hl
  · exact formed_counter h p.1 p.2
  · exact hdurations l hl
  · exact formed_duration h p.1 p.2
  · obtain ⟨hname, hkind⟩ := fields_formed m f hf
    exact formed_number h hname hkind f.2.2 l hl

theorem numbers_ordered (m : ServiceMetrics D) : (numbers m).Pairwise (Line.follows · ·) := by
  have hnames : (m.fields.map Prod.fst).Nodup := by
    rw [fields_names]
    decide +kernel
  have hname : ∀ {f : Text × Text × ℕ} {l : Line}, l ∈ number f.1 f.2.1 f.2.2 → l.name = f.1 := by
    intro f l hl
    rcases List.mem_cons.mp hl with rfl | hl
    · rfl
    · cases List.mem_singleton.mp hl
      rfl
  refine List.pairwise_flatMap.mpr ⟨fun f _ => ?_, (List.pairwise_map.mp hnames).imp fun hne l hl l' hl' => ?_⟩
  · exact List.pairwise_pair.mpr rfl
  · exact Exposition.follows_of_name (by rwa [hname hl, hname hl'])

theorem requests_name (m : ServiceMetrics D) :
    ∀ l ∈ requestsHead ++ m.sortedRequests.map (fun p => Line.sample (counter p.1 p.2)),
      l.name = requestsTotal := by
  intro l hl
  simp only [requestsHead, List.mem_append, List.mem_cons, List.not_mem_nil, or_false, List.mem_map] at hl
  rcases hl with (rfl | rfl) | ⟨p, -, rfl⟩ <;> rfl

theorem durations_name (m : ServiceMetrics D) :
    ∀ l ∈ durationHead ++
        m.sortedDurations.map (fun p => Line.sample (duration fixed p.1 p.2)),
      l.name = durationTotal := by
  intro l hl
  simp only [durationHead, List.mem_append, List.mem_cons, List.not_mem_nil, or_false, List.mem_map] at hl
  rcases hl with (rfl | rfl) | ⟨p, -, rfl⟩ <;> rfl

theorem numbers_name (m : ServiceMetrics D) : ∀ l ∈ numbers m, l.name ∈ m.fields.map Prod.fst := by
  intro l hl
  obtain ⟨f, hf, hl⟩ := List.mem_flatMap.mp hl
  rcases List.mem_cons.mp hl with rfl | hl
  · exact List.mem_map_of_mem hf
  · cases List.mem_singleton.mp hl
    exact List.mem_map_of_mem hf

theorem labels_counter {key key' : Key} (h : key ≠ key') :
    [("method".toList, key.1), ("route".toList, key.2.1), ("status".toList, decimal key.2.2)] ≠
      [("method".toList, key'.1), ("route".toList, key'.2.1), ("status".toList, decimal key'.2.2)] := by
  intro heq
  simp only [List.cons.injEq, Prod.mk.injEq, true_and, and_true] at heq
  exact h (Prod.ext heq.1 (Prod.ext heq.2.1 (decimal_injective heq.2.2)))

theorem labels_duration {route route' : Text × Text} (h : route ≠ route') :
    [("method".toList, route.1), ("route".toList, route.2)] ≠
      [("method".toList, route'.1), ("route".toList, route'.2)] := by
  intro heq
  simp only [List.cons.injEq, Prod.mk.injEq, true_and, and_true] at heq
  exact h (Prod.ext heq.1 heq.2)

theorem lines_ordered (fixed : D → Text) {m : ServiceMetrics D} (hrequests : (m.requests.map Prod.fst).Nodup)
    (hdurations : (m.durationSeconds.map Prod.fst).Nodup) : (m.lines fixed).Pairwise (Line.follows · ·) := by
  have hsorted : (m.sortedRequests.map Prod.fst).Nodup :=
    ((List.perm_insertionSort _ _).map Prod.fst).nodup_iff.mpr hrequests
  have hsorted' : (m.sortedDurations.map Prod.fst).Nodup :=
    ((List.perm_insertionSort _ _).map Prod.fst).nodup_iff.mpr hdurations
  have hfirst : (requestsHead ++ m.sortedRequests.map
      (fun p => Line.sample (counter p.1 p.2))).Pairwise (Line.follows · ·) :=
    Exposition.pairwise_family (fun p : Key × ℕ => counter p.1 p.2)
      ((List.pairwise_map.mp hsorted).imp fun h => labels_counter h)
  have hsecond : (durationHead ++ m.sortedDurations.map
      (fun p => Line.sample (duration fixed p.1 p.2))).Pairwise (Line.follows · ·) :=
    Exposition.pairwise_family (fun p : (Text × Text) × D => duration fixed p.1 p.2)
      ((List.pairwise_map.mp hsorted').imp fun h => labels_duration h)
  have hnames : requestsTotal ∉ m.fields.map Prod.fst ∧ durationTotal ∉ m.fields.map Prod.fst := by
    rw [fields_names]
    decide +kernel
  have hne : requestsTotal ≠ durationTotal := by decide +kernel
  rw [ServiceMetrics.lines, List.append_assoc, List.append_assoc, ← List.append_assoc durationHead]
  have hrest := Exposition.pairwise_append_of_names hsecond (numbers_ordered m) fun l hl l' hl' heq =>
    hnames.2 (durations_name m l hl ▸ heq ▸ numbers_name m l' hl')
  refine Exposition.pairwise_append_of_names hfirst hrest fun l hl l' hl' heq => ?_
  have hname := requests_name m l hl
  rcases List.mem_append.mp hl' with hl' | hl'
  · exact hne (hname.symm.trans (heq.trans (durations_name m l' hl')))
  · exact hnames.1 (hname ▸ heq ▸ numbers_name m l' hl')

theorem lines_perm [Zero D] [Add D] (fixed : D → Text) (es : List (Call D)) :
    ((after es).lines fixed).Perm (recorded fixed es) := by
  have hrequests := (List.perm_insertionSort (fun a b => keyBefore a.1 b.1) _).trans (requests_perm es)
  have hdurations := (List.perm_insertionSort (fun a b => routeBefore a.1 b.1) _).trans (durationSeconds_perm es)
  have hcounters := hrequests.map fun p => Line.sample (counter p.1 p.2)
  have htimes := hdurations.map fun p => Line.sample (duration fixed p.1 p.2)
  rw [List.map_map] at hcounters htimes
  exact ((((List.Perm.refl _).append hcounters).append (List.Perm.refl _)).append htimes).append (List.Perm.refl _)

theorem plainLabels_recorded [Zero D] [Add D] (es : List (Call D)) :
    (∀ l ∈ recorded fixed es, l.PlainLabels) ↔ ∀ key ∈ keys es, Plain key.1 ∧ Plain key.2.1 := by
  constructor
  · intro h key hkey
    have hline : Line.sample (counter key ((keys es).count key)) ∈ recorded fixed es := by
      simp only [recorded, List.mem_append, List.mem_map, List.mem_dedup]
      exact .inl (.inl (.inl (.inr ⟨key, hkey, rfl⟩)))
    have hlabels : ∀ p ∈ [("method".toList, key.1), ("route".toList, key.2.1), ("status".toList, decimal key.2.2)],
        Plain p.2 := h _ hline
    exact ⟨hlabels _ List.mem_cons_self, hlabels _ (List.mem_cons_of_mem _ List.mem_cons_self)⟩
  · intro h l hl
    simp only [recorded, requestsHead, durationHead, numbers, number, List.mem_append, List.mem_map, List.mem_dedup,
      List.mem_cons, List.not_mem_nil, or_false, List.mem_flatMap] at hl
    rcases hl with ((((rfl | rfl) | ⟨key, hkey, rfl⟩) | (rfl | rfl)) | ⟨route, hroute, rfl⟩) | ⟨f, -, rfl | rfl⟩
    · exact trivial
    · exact trivial
    · obtain ⟨hmethod, hroute⟩ := h key hkey
      intro p hp
      simp only [counter, List.mem_cons, List.not_mem_nil, or_false] at hp
      rcases hp with rfl | rfl | rfl
      · exact hmethod
      · exact hroute
      · exact decimal_plain _
    · exact trivial
    · exact trivial
    · obtain ⟨o, ho, rfl⟩ := List.mem_map.mp hroute
      obtain ⟨hmethod, hroute⟩ := h o.1 (List.mem_map_of_mem ho)
      intro p hp
      simp only [duration, List.mem_cons, List.not_mem_nil, or_false] at hp
      rcases hp with rfl | rfl
      · exact hmethod
      · exact hroute
    · exact trivial
    · exact fun p hp => absurd hp List.not_mem_nil

theorem faithful_iff_plainLabels [Zero D] [Add D] (h : Formats numeric fixed) (es : List (Call D)) :
    Faithful fixed numeric es ↔ ∀ l ∈ recorded fixed es, l.PlainLabels := by
  have hperm := lines_perm fixed es
  have hread := Exposition.parse_write_iff (lines_formed h (after es))
    (lines_ordered fixed (nodup_requests es) (nodup_durationSeconds es))
  have hfaithful : Faithful fixed numeric es ↔
      ∃ ls, Exposition.parse numeric (Exposition.write ((after es).lines fixed)) = some ls ∧
        ls.Perm ((after es).lines fixed) := by
    rw [Faithful, render_eq]
    exact exists_congr fun ls => and_congr_right fun _ => ⟨fun hls => hls.trans hperm.symm, fun hls => hls.trans hperm⟩
  rw [hfaithful, hread]
  exact forall_congr' fun l => by rw [hperm.mem_iff]

/-- The text of a history is what was recorded, exactly if no method and no route that was
observed has a quote, a backslash or a line feed. -/
theorem faithful_iff [Zero D] [Add D] (h : Formats numeric fixed) (es : List (Call D)) :
    Faithful fixed numeric es ↔ ∀ key ∈ keys es, Plain key.1 ∧ Plain key.2.1 :=
  (faithful_iff_plainLabels h es).trans (plainLabels_recorded es)

end Reading

/-! ### A duration in microseconds -/

/-- Whole microseconds, in seconds. -/
def seconds (microseconds : ℕ) : Text :=
  decimal (microseconds / 10 ^ 6) ++ '.' :: Digits.padded 6 (microseconds % 10 ^ 6)

/-- Digits and dots. -/
def digits (cs : Text) : Bool := !cs.isEmpty && cs.all fun c => c.isDigit || c = '.'

theorem seconds_chars (d : ℕ) : ∀ c ∈ seconds d, c.isDigit ∨ c = '.' := by
  intro c hc
  rcases List.mem_append.mp hc with hc | hc
  · exact .inl (isDigit_decimal _ c hc)
  · rcases List.mem_cons.mp hc with rfl | hc
    · exact .inr rfl
    · exact .inl (Digits.isDigit_padded _ _ c hc)

theorem digits_of {cs : Text} (hne : cs ≠ []) (h : ∀ c ∈ cs, c.isDigit ∨ c = '.') : digits cs := by
  simp only [digits, Bool.and_eq_true, Bool.not_eq_true', List.isEmpty_eq_false_iff, List.all_eq_true,
    Bool.or_eq_true, decide_eq_true_eq]
  exact ⟨hne, h⟩

theorem seconds_ne_nil (d : ℕ) : seconds d ≠ [] := List.append_ne_nil_of_right_ne_nil _ (List.cons_ne_nil _ _)

theorem formats_seconds : Formats digits seconds where
  counts n := digits_of (decimal_ne_nil n) fun c hc => .inl (isDigit_decimal n c hc)
  durations d := digits_of (seconds_ne_nil d) (seconds_chars d)
  ne_nil := seconds_ne_nil
  solid d c hc := by
    rcases seconds_chars d c hc with hdigit | rfl
    · exact solid_of_isDigit hdigit
    · decide

theorem faithful_iff_matched :
    Faithful seconds digits [.observe "GET".toList (routeLabel (some "/health".toList) "/health".toList) 200 1500] :=
  (faithful_iff formats_seconds _).mpr (by decide +kernel)

/-- `GET /a%22b`, which no route matches. -/
theorem not_faithful_quoted : ¬ ∀ es : List (Call ℕ), Faithful seconds digits es := by
  intro h
  have hfaithful := h [.observe "GET".toList (routeLabel none ['/', 'a', '"', 'b']) 404 1500]
  have hplain := (plainLabels_recorded _).mp ((faithful_iff_plainLabels formats_seconds _).mp hfaithful)
  exact absurd hplain (by decide +kernel)

end AutomlApi.Hardening.Metrics
