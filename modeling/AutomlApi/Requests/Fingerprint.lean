import Mathlib.Data.List.Dedup
import Mathlib.Data.List.Induction
import Mathlib.Logic.Function.Basic
import Mathlib.Order.Bounds.Basic
import AutomlApi.Library.Dict
import AutomlApi.Requests.Models

/-! The fingerprint of a request: the digest of a canonical text of its method, path,
query, body and condition. -/

namespace AutomlApi.Requests

-- Only the elements of a list are asked, not every character.
attribute [local instance (2000)] List.decidableBAll List.decidableBEx

open Function (Injective)

/-- The methods of the idempotent operations. -/
inductive Method where
  | post | delete
  deriving DecidableEq

/-- `method.upper()`. -/
def Method.upper : Method → String
  | post => "POST"
  | delete => "DELETE"

/-- A request as the API has parsed it; the query is `query_params.multi_items()`. -/
structure HttpRequest where
  method : Method
  path : String
  query : List (String × String)
  ifMatch : Option String
  body : Body

/-- The order of pairs of strings. -/
def pairLe (p q : String × String) : Bool := p.1 < q.1 ∨ p.1 = q.1 ∧ p.2 ≤ q.2

/-- `dict(sorted(…))`. -/
def queryDict (query : List (String × String)) : Dict String String := Dict.update [] (query.mergeSort pairLe)

def conditions (ifMatch : Option String) : Dict String String :=
  match ifMatch with
  | some value => [("if-match", value)]
  | none => []

/-- A dictionary of strings. -/
def strings (d : Dict String String) : Json := .object (d.map fun p => (p.1, .str p.2))

section Fingerprint

variable {δ : Type} (sha256 : ByteArray → δ)

def requestFingerprint (method path : String) (query : Dict String String) (body : Json)
    (conditions : Dict String String) : δ :=
  let canonical : Json :=
    .object [("method", .str method), ("path", .str path), ("query", strings query), ("body", body),
      ("conditions", strings conditions)]
  sha256 canonical.dumps.toUTF8

/-- The fingerprint that `_idempotent` takes of a request. -/
def HttpRequest.fingerprint (r : HttpRequest) : δ :=
  requestFingerprint sha256 r.method.upper r.path (queryDict r.query) r.body.json (conditions r.ifMatch)

end Fingerprint

/-! ### The same request -/

/-- The same method, path, multiset of query parameters, `If-Match` and body. -/
structure HttpRequest.Same (a b : HttpRequest) : Prop where
  method : a.method = b.method
  path : a.path = b.path
  query : a.query.Perm b.query
  ifMatch : a.ifMatch = b.ifMatch
  body : a.body.Same b.body

/-- The requests only differ in their queries, and there only in values of a repeated name
that a greater one hides. -/
structure HttpRequest.Shadowed (a b : HttpRequest) : Prop where
  method : a.method = b.method
  path : a.path = b.path
  ifMatch : a.ifMatch = b.ifMatch
  body : a.body.Same b.body ∧ a.body.Alike b.body
  last : ∀ name value, IsGreatest {v | (name, v) ∈ a.query} value ↔ IsGreatest {v | (name, v) ∈ b.query} value
  query : ¬ a.query.Perm b.query

/-- The requests are the same, but a set of the body is iterated in another order. -/
structure HttpRequest.Reordered (a b : HttpRequest) : Prop where
  same : a.Same b
  body : ¬ a.body.Alike b.body

/-! ### Dictionaries of strings -/

theorem mem_iff_get {d : Dict String String} (hd : (d.map Prod.fst).Nodup) {k v : String} :
    (k, v) ∈ d ↔ d.get k = some v := by
  refine ⟨fun h => ?_, Dict.mem_of_get⟩
  obtain ⟨w, hw⟩ : ∃ w, d.get k = some w := by
    rw [← Option.isSome_iff_exists, Dict.get, Option.isSome_map, List.find?_isSome]
    exact ⟨(k, v), h, by simp⟩
  have := List.inj_on_of_nodup_map hd h (Dict.mem_of_get hw) rfl
  rw [hw, (Prod.mk.inj this).2]

theorem strings_same_iff {d d' : Dict String String} (hd : (d.map Prod.fst).Nodup) (hd' : (d'.map Prod.fst).Nodup) :
    (strings d).Same (strings d') ↔ ∀ k, d.get k = d'.get k := by
  have hmem (p : String × String) : (∃ b, (p.1, b) ∈ d'.map (fun q => (q.1, Json.str q.2)) ∧ (Json.str p.2).Same b) ↔
      p ∈ d' := by
    constructor
    · rintro ⟨b, hb, hsame⟩
      obtain ⟨q, hq, heq⟩ := List.mem_map.mp hb
      obtain ⟨hkey, rfl⟩ := Prod.mk.inj heq
      rw [Json.faithful_str] at hsame
      rwa [show p = q from Prod.ext hkey.symm hsame]
    · intro hp
      exact ⟨.str p.2, List.mem_map.mpr ⟨p, hp, rfl⟩, (Json.faithful_str _ _).mpr rfl⟩
  rw [strings, strings, Json.Same, Json.sameFields_iff_forall, List.length_map, List.length_map]
  simp only [List.forall_mem_map, hmem]
  constructor
  · rintro ⟨hlength, hsub⟩ k
    have hperm : d.Perm d' :=
      (List.subperm_of_subset (List.Nodup.of_map _ hd) hsub).perm_of_length_le hlength.ge
    refine Option.ext fun v => ?_
    rw [← mem_iff_get hd, ← mem_iff_get hd', hperm.mem_iff]
  · intro hget
    have hperm : d.Perm d' := by
      refine (List.perm_ext_iff_of_nodup (List.Nodup.of_map _ hd) (List.Nodup.of_map _ hd')).mpr fun p => ?_
      rw [show p = (p.1, p.2) from rfl, mem_iff_get hd, mem_iff_get hd', hget]
    exact ⟨hperm.length_eq, fun p hp => hperm.mem_iff.mp hp⟩

/-! ### Queries and conditions -/

theorem pairLe_iff {p q : String × String} : pairLe p q ↔ p.1 < q.1 ∨ p.1 = q.1 ∧ p.2 ≤ q.2 := by
  simp [pairLe]

theorem pairLe_trans (p q r : String × String) (hpq : pairLe p q) (hqr : pairLe q r) : pairLe p r := by
  rw [pairLe_iff] at *
  rcases hpq with hpq | ⟨hpq, hpq'⟩ <;> rcases hqr with hqr | ⟨hqr, hqr'⟩
  · exact .inl (lt_trans hpq hqr)
  · exact .inl (hqr ▸ hpq)
  · exact .inl (hpq ▸ hqr)
  · exact .inr ⟨hpq.trans hqr, le_trans hpq' hqr'⟩

theorem pairLe_total (p q : String × String) : pairLe p q || pairLe q p := by
  rw [Bool.or_eq_true, pairLe_iff, pairLe_iff]
  rcases lt_trichotomy p.1 q.1 with h | h | h
  · exact .inl (.inl h)
  · exact (le_total p.2 q.2).imp (fun hle => .inr ⟨h, hle⟩) fun hle => .inr ⟨h.symm, hle⟩
  · exact .inr (.inl h)

theorem pairLe_antisymm {p q : String × String} (hpq : pairLe p q) (hqp : pairLe q p) : p = q := by
  rw [pairLe_iff] at *
  rcases hpq with hpq | ⟨hpq, hpq'⟩ <;> rcases hqp with hqp | ⟨hqp, hqp'⟩
  · exact absurd hpq (lt_asymm hqp)
  · exact absurd hpq (hqp ▸ lt_irrefl _)
  · exact absurd hqp (hpq ▸ lt_irrefl _)
  · exact Prod.ext hpq (le_antisymm hpq' hqp')

/-- The order of the parameters makes no difference. -/
theorem queryDict_of_perm {q q' : List (String × String)} (h : q.Perm q') : queryDict q = queryDict q' := by
  have hperm : (q.mergeSort pairLe).Perm (q'.mergeSort pairLe) :=
    (List.mergeSort_perm _ _).trans (h.trans (List.mergeSort_perm _ _).symm)
  rw [queryDict, queryDict, hperm.eq_of_pairwise (fun p r _ _ => pairLe_antisymm)
    (List.pairwise_mergeSort pairLe_trans pairLe_total q) (List.pairwise_mergeSort pairLe_trans pairLe_total q')]

/-- In a dictionary of sorted entries, the greatest value of each name is left. -/
theorem get_update_iff {q : List (String × String)} (hq : q.Pairwise (pairLe · ·)) {name value : String} :
    (Dict.update [] q).get name = some value ↔ IsGreatest {v | (name, v) ∈ q} value := by
  induction q using List.reverseRecOn with
  | nil => simp [Dict.update, Dict.get, IsGreatest]
  | append_singleton q p ih =>
    obtain ⟨hq, -, hle⟩ := List.pairwise_append.mp hq
    have hset : Dict.update [] (q ++ [p]) = (Dict.update [] q).set p.1 p.2 := List.foldl_append
    rw [hset, Dict.get_set]
    by_cases hname : name = p.1
    · subst hname
      have hgreatest : IsGreatest {v | (p.1, v) ∈ q ++ [p]} p.2 := by
        refine ⟨List.mem_append_right q (List.mem_singleton_self p), fun v hv => ?_⟩
        rcases List.mem_append.mp hv with hv | hv
        · rcases pairLe_iff.mp (hle _ hv p (List.mem_singleton_self p)) with hlt | ⟨-, hle⟩
          · exact absurd hlt (lt_irrefl _)
          · exact hle
        · exact (congrArg Prod.snd (List.mem_singleton.mp hv)).le
      rw [if_pos rfl, Option.some.injEq]
      exact ⟨fun h => h ▸ hgreatest, hgreatest.unique⟩
    · have hsame : {v | (name, v) ∈ q ++ [p]} = {v | (name, v) ∈ q} := by
        ext v
        simp [Prod.ext_iff, hname]
      rw [if_neg hname, hsame, ih hq]

/-- The query of a fingerprint has the greatest value of each name. -/
theorem queryDict_get_iff (q : List (String × String)) (name value : String) :
    (queryDict q).get name = some value ↔ IsGreatest {v | (name, v) ∈ q} value := by
  rw [queryDict, get_update_iff (List.pairwise_mergeSort pairLe_trans pairLe_total q)]
  simp only [List.mem_mergeSort]

theorem queryDict_get_eq_iff (q q' : List (String × String)) :
    (∀ name, (queryDict q).get name = (queryDict q').get name) ↔
      ∀ name value, IsGreatest {v | (name, v) ∈ q} value ↔ IsGreatest {v | (name, v) ∈ q'} value := by
  simp only [← queryDict_get_iff]
  exact ⟨fun h name value => by rw [h], fun h name => Option.ext fun value => h name value⟩

theorem nodup_queryDict (q : List (String × String)) : ((queryDict q).map Prod.fst).Nodup :=
  Dict.nodup_update (d := []) (by simp) _

/-- A query that names each parameter once is a dictionary of its own. -/
theorem queryDict_perm {q : List (String × String)} (h : (q.map Prod.fst).Nodup) : (queryDict q).Perm q := by
  have hperm := List.mergeSort_perm q pairLe
  rw [queryDict, Dict.update_of_nodup (by rw [List.nil_append, (hperm.map Prod.fst).nodup_iff]; exact h)]
  exact hperm

theorem HttpRequest.Shadowed.repeats {a b : HttpRequest} (h : a.Shadowed b) :
    ¬ ((a.query.map Prod.fst).Nodup ∧ (b.query.map Prod.fst).Nodup) := by
  rintro ⟨ha, hb⟩
  refine h.query ?_
  have hdicts : (queryDict a.query).Perm (queryDict b.query) := by
    refine (List.perm_ext_iff_of_nodup (List.Nodup.of_map _ (nodup_queryDict _))
      (List.Nodup.of_map _ (nodup_queryDict _))).mpr fun p => ?_
    rw [show p = (p.1, p.2) from rfl, mem_iff_get (nodup_queryDict _), mem_iff_get (nodup_queryDict _),
      (queryDict_get_eq_iff _ _).mpr h.last]
  exact (queryDict_perm ha).symm.trans (hdicts.trans (queryDict_perm hb))

theorem nodup_conditions (ifMatch : Option String) : ((conditions ifMatch).map Prod.fst).Nodup := by
  cases ifMatch <;> simp [conditions]

theorem conditions_get_iff (a b : Option String) : (∀ k, (conditions a).get k = (conditions b).get k) ↔ a = b := by
  have hget (c : Option String) : (conditions c).get "if-match" = c := by
    cases c <;> simp [conditions, Dict.get_cons]
  constructor
  · intro h
    rw [← hget a, h, hget]
  · rintro rfl k
    rfl

/-! ### Equal fingerprints -/

theorem keyed_strings {d : Dict String String} (hd : (d.map Prod.fst).Nodup) : (strings d).Keyed := by
  rw [strings, Json.Keyed, List.map_map, Json.keyedFields_iff]
  refine ⟨hd, fun p hp => ?_⟩
  obtain ⟨q, -, rfl⟩ := List.mem_map.mp hp
  exact Json.keyed_str q.2

variable {δ : Type} {sha256 : ByteArray → δ}

theorem Method.upper_inj (m n : Method) (h : m.upper = n.upper) : m = n := by
  revert h
  cases m <;> cases n <;> decide

/-- What two requests with one fingerprint have in common. -/
theorem fingerprint_eq_iff (h : Injective sha256) (a b : HttpRequest) :
    a.fingerprint sha256 = b.fingerprint sha256 ↔ a.method = b.method ∧ a.path = b.path ∧
      (∀ name, (queryDict a.query).get name = (queryDict b.query).get name) ∧
      (a.body.Same b.body ∧ a.body.Alike b.body) ∧ a.ifMatch = b.ifMatch := by
  have hkeyed (r : HttpRequest) : (Json.object [("method", .str r.method.upper), ("path", .str r.path),
      ("query", strings (queryDict r.query)), ("body", r.body.json),
      ("conditions", strings (conditions r.ifMatch))]).Keyed := by
    simp [Json.Keyed, Json.KeyedFields, keyed_strings (nodup_queryDict r.query),
      keyed_strings (nodup_conditions r.ifMatch), r.body.keyed_json]
  have hmethod : (Json.str a.method.upper).Same (.str b.method.upper) ↔ a.method = b.method :=
    faithful_value Method.upper_inj _ _
  unfold HttpRequest.fingerprint requestFingerprint
  simp only [h.eq_iff, String.toUTF8_eq_toByteArray, String.toByteArray_inj]
  rw [Json.dumps_eq_iff (hkeyed a) (hkeyed b), Json.same_object (by rfl) (by simp)]
  simp only [List.map_cons, List.map_nil, Json.SameItems, and_true]
  rw [hmethod, Json.faithful_str, strings_same_iff (nodup_queryDict _) (nodup_queryDict _), Body.json_same_iff,
    strings_same_iff (nodup_conditions _) (nodup_conditions _), conditions_get_iff]

/-- Two requests have one fingerprint just if they are the same, unless the query of one
hides what the other does not say, or a set is iterated in two orders. -/
theorem fingerprint_canonical_iff (h : Injective sha256) (a b : HttpRequest) :
    (a.fingerprint sha256 = b.fingerprint sha256 ↔ a.Same b) ↔ ¬ a.Shadowed b ∧ ¬ a.Reordered b := by
  rw [fingerprint_eq_iff h]
  constructor
  · intro hiff
    constructor
    · intro hs
      have hlast := (queryDict_get_eq_iff _ _).mpr hs.last
      exact hs.query (hiff.mp ⟨hs.method, hs.path, hlast, hs.body, hs.ifMatch⟩).query
    · intro hr
      obtain ⟨-, -, -, ⟨-, halike⟩, -⟩ := hiff.mpr hr.same
      exact hr.body halike
  · rintro ⟨hshadowed, hreordered⟩
    constructor
    · rintro ⟨hmethod, hpath, hlast, hbody, hmatch⟩
      refine ⟨hmethod, hpath, ?_, hmatch, hbody.1⟩
      by_contra hquery
      exact hshadowed ⟨hmethod, hpath, hmatch, hbody, (queryDict_get_eq_iff _ _).mp hlast, hquery⟩
    · intro hs
      refine ⟨hs.method, hs.path, fun name => by rw [queryDict_of_perm hs.query], ⟨hs.body, ?_⟩, hs.ifMatch⟩
      by_contra halike
      exact hreordered ⟨hs, halike⟩

/-! ### Two ways to miss -/

/-- A request for a run with two webhook endpoints, iterated as `ids`. -/
def runRequest (ids : List String) (h : ids.Nodup) : CreateRunRequest where
  datasetVersionId := "dsv_1"
  objective := ⟨"sklearn", some "churn", none, none, none, some true, none⟩
  autonomy := ⟨.disabled⟩
  policy := ⟨false, false, .standard⟩
  budget := ⟨20, .finite ⟨['1', '.', '0'], by decide, by decide⟩, 3600, 0⟩
  callbackUri := none
  callbackUrl := none
  webhookEndpointIds := ⟨ids, h⟩

def postRuns (body : Body) : HttpRequest := ⟨.post, "/v1/runs", [], none, body⟩

def pauseRun (query : List (String × String)) : HttpRequest :=
  ⟨.post, "/v1/runs/run_1:pause", query, some "\"1\"", .none⟩

/-- A process that iterates the set of endpoints in another order gives the same request
another fingerprint; a query that repeats a name has the fingerprint of one that does
not. -/
theorem fingerprint_not_canonical :
    (∃ a b : HttpRequest, a.Same b ∧
      ∀ {δ : Type} (sha256 : ByteArray → δ), Injective sha256 → a.fingerprint sha256 ≠ b.fingerprint sha256) ∧
      ∃ a b : HttpRequest, ¬ a.Same b ∧
        ∀ {δ : Type} (sha256 : ByteArray → δ), a.fingerprint sha256 = b.fingerprint sha256 := by
  constructor
  · refine ⟨postRuns (.createRun (runRequest ["whe_1", "whe_2"] (by decide))),
      postRuns (.createRun (runRequest ["whe_2", "whe_1"] (by decide))), ?_, ?_⟩
    · exact ⟨rfl, rfl, List.Perm.refl _, rfl, rfl, List.Perm.swap _ _ _⟩
    · intro δ sha256 h heq
      obtain ⟨-, -, -, ⟨-, halike⟩, -⟩ := (fingerprint_eq_iff h _ _).mp heq
      exact absurd (congrArg PySet.elements halike) (by decide)
  · refine ⟨pauseRun [("reason", "a"), ("reason", "b")], pauseRun [("reason", "b")], ?_, ?_⟩
    · intro hs
      exact absurd hs.query.length_eq (by decide)
    · intro δ sha256
      -- the digest only adds a function to the canonical bytes
      have hbytes : (pauseRun [("reason", "a"), ("reason", "b")]).fingerprint id =
          (pauseRun [("reason", "b")]).fingerprint id := by
        refine (fingerprint_eq_iff Function.injective_id _ _).mpr ⟨rfl, rfl, fun name => ?_, ⟨trivial, trivial⟩, rfl⟩
        have hsorted : [("reason", "a"), ("reason", "b")].mergeSort pairLe = [("reason", "a"), ("reason", "b")] :=
          List.mergeSort_of_pairwise (by decide)
        have hdict : queryDict [("reason", "a"), ("reason", "b")] = queryDict [("reason", "b")] := by
          rw [queryDict, hsorted, queryDict, List.mergeSort_singleton]
          decide
        exact congrArg (Dict.get · name) hdict
      exact congrArg sha256 hbytes

theorem fingerprint_canonical_iff_pause :
    Injective (id : ByteArray → ByteArray) ∧
      (((pauseRun [("a", "1"), ("b", "2")]).fingerprint id = (pauseRun [("b", "2"), ("a", "1")]).fingerprint id ↔
          (pauseRun [("a", "1"), ("b", "2")]).Same (pauseRun [("b", "2"), ("a", "1")])) ↔
        ¬ (pauseRun [("a", "1"), ("b", "2")]).Shadowed (pauseRun [("b", "2"), ("a", "1")]) ∧
          ¬ (pauseRun [("a", "1"), ("b", "2")]).Reordered (pauseRun [("b", "2"), ("a", "1")])) :=
  ⟨Function.injective_id, fingerprint_canonical_iff Function.injective_id _ _⟩

end AutomlApi.Requests
