import Mathlib.Data.Rat.Defs
import AutomlApi.Requests.Replaying

/-! Refusals that are marked as retriable: the quotas that raise them, the client that
repeats a refused request under its key, and the record between the two. -/

namespace AutomlApi.Requests

open Runs
open Store (Fields IdempotencyRecord Memory SetOrder SqliteStore StoredResponse Value)

/-! ### Quotas -/

structure RuntimeLimits where
  maxDatasetBytes : ℤ := 100 * 1024 * 1024
  maxUploadPartBytes : ℤ := 100 * 1024 * 1024
  maxActiveRunsPerTenant : ℤ := 4
  maxStorageBytesPerTenant : ℤ := 1024 * 1024 * 1024
  maxTrialsPerRun : ℤ := 20
  maxWallTimeSeconds : ℤ := 3600
  maxComputeCredits : ℚ := 20

structure Budget where
  maxTrials : ℤ
  maxWallTimeSeconds : ℤ
  maxComputeCredits : ℚ

section Quotas

-- the value of a Python float
variable (float : ℚ → Value)

def RuntimeLimits.manifest (limits : RuntimeLimits) : Value :=
  .dict [("max_dataset_bytes", .int limits.maxDatasetBytes),
    ("max_upload_part_bytes", .int limits.maxUploadPartBytes),
    ("max_active_runs_per_tenant", .int limits.maxActiveRunsPerTenant),
    ("max_storage_bytes_per_tenant", .int limits.maxStorageBytesPerTenant),
    ("max_trials_per_run", .int limits.maxTrialsPerRun),
    ("max_wall_time_seconds", .int limits.maxWallTimeSeconds),
    ("max_compute_credits", float limits.maxComputeCredits)]

/-- One check of `validate_budget`. -/
def violation (field : String) (exceeds : Bool) (requested limit : Value) : Fields :=
  if exceeds then [(field, .dict [("requested", requested), ("limit", limit)])] else []

def RuntimeLimits.validateBudget (limits : RuntimeLimits) (budget : Budget) : Except APIProblem Unit :=
  let violations :=
    violation "max_trials" (limits.maxTrialsPerRun < budget.maxTrials) (.int budget.maxTrials)
        (.int limits.maxTrialsPerRun) ++
      violation "max_wall_time_seconds" (limits.maxWallTimeSeconds < budget.maxWallTimeSeconds)
        (.int budget.maxWallTimeSeconds) (.int limits.maxWallTimeSeconds) ++
      violation "max_compute_credits" (limits.maxComputeCredits < budget.maxComputeCredits)
        (float budget.maxComputeCredits) (float limits.maxComputeCredits)
  if violations.isEmpty then .ok ()
  else .error
    { status := 422
      code := "budget_limit_exceeded"
      title := "Run budget exceeds this service profile"
      detail := "Reduce the requested bounded compute budget and create the Run again."
      extras := [("violations", .dict violations), ("runtime_limits", limits.manifest float)] }

/-- `item.get("tenant_id") == tenant_id`. -/
def ofTenant (tenantId : String) (item : Fields) : Bool := ((item.get "tenant_id").getD .null).equal (.str tenantId)

/-- `int(item.get("size_bytes") or 0)`; the sizes that the service stores are integers. -/
def sizeBytes (item : Fields) : ℤ :=
  match item.get "size_bytes" with
  | some (.int size) => size
  | _ => 0

def tenantStorageBytes (tenantId : String) (memory : Memory) : ℤ :=
  let sizes (items : Dict String Fields) := ((items.map Prod.snd).filter (ofTenant tenantId)).map sizeBytes
  (sizes memory.datasetVersions).sum + (sizes memory.artifacts).sum

def tenantActiveRunCount (tenantId : String) (memory : Memory) : ℕ :=
  ((memory.runs.map Prod.snd).filter fun run =>
    ofTenant tenantId run && !((run.get "status").getD .null).equal (.str "TERMINAL")).length

def datasetTooLarge (limits : RuntimeLimits) : APIProblem where
  status := 413
  code := "dataset_too_large"
  title := "Dataset is too large"
  detail := "The declared dataset size exceeds this service profile."
  extras := [("runtime_limits", limits.manifest float)]

def tenantStorageLimitExceeded (limits : RuntimeLimits) (storageUsed size : ℤ) : APIProblem where
  status := 429
  code := "tenant_storage_limit_exceeded"
  title := "Tenant storage limit exceeded"
  detail := "Delete or expire existing resources before uploading another dataset."
  retriable := true
  extras := [("storage_bytes_used", .int storageUsed), ("requested_bytes", .int size),
    ("runtime_limits", limits.manifest float)]
  headers := [("Retry-After", .str "3600")]

/-- `_enforce_dataset_limits`. -/
def enforceDatasetLimits (limits : RuntimeLimits) (tenantId : String) (size : ℤ) (memory : Memory) :
    Except APIProblem Unit :=
  if limits.maxDatasetBytes < size then .error (datasetTooLarge float limits)
  else
    let storageUsed := tenantStorageBytes tenantId memory
    if limits.maxStorageBytesPerTenant < storageUsed + size then
      .error (tenantStorageLimitExceeded float limits storageUsed size)
    else .ok ()

def activeRunLimitExceeded (limits : RuntimeLimits) (active : ℕ) : APIProblem where
  status := 429
  code := "active_run_limit_exceeded"
  title := "Active Run limit exceeded"
  detail := "Wait for an active Run to finish before creating another one."
  retriable := true
  extras := [("active_runs", .int active), ("runtime_limits", limits.manifest float)]
  headers := [("Retry-After", .str "30")]

/-- `_enforce_run_limits`. -/
def enforceRunLimits (limits : RuntimeLimits) (tenantId : String) (budget : Budget) (memory : Memory) :
    Except APIProblem Unit := do
  limits.validateBudget float budget
  let active := tenantActiveRunCount tenantId memory
  if limits.maxActiveRunsPerTenant ≤ active then .error (activeRunLimitExceeded float limits active)
  else .ok ()

/-- The problems with which the quotas refuse a request and ask for a retry. -/
def QuotaRefusal (limits : RuntimeLimits) (tenantId : String) (memory : Memory) (problem : APIProblem) : Prop :=
  problem.retriable ∧ ((∃ size, enforceDatasetLimits float limits tenantId size memory = .error problem) ∨
    ∃ budget, enforceRunLimits float limits tenantId budget memory = .error problem)

variable {float}

theorem QuotaRefusal.status {limits : RuntimeLimits} {tenantId : String} {memory : Memory} {problem : APIProblem}
    (h : QuotaRefusal float limits tenantId memory problem) : problem.status = 429 := by
  obtain ⟨hr, ⟨size, hd⟩ | ⟨budget, hb⟩⟩ := h
  · unfold enforceDatasetLimits at hd
    split at hd
    · cases hd; cases hr
    · dsimp only at hd
      split at hd
      · cases hd; rfl
      · cases hd
  · unfold enforceRunLimits at hb
    cases hv : limits.validateBudget float budget with
    | error other =>
      rw [hv] at hb
      unfold RuntimeLimits.validateBudget at hv
      dsimp only at hv
      split at hv
      · cases hv
      · cases hv; cases hb; cases hr
    | ok u =>
      rw [hv] at hb
      simp only [bind, Except.bind] at hb
      split at hb
      · cases hb; rfl
      · cases hb

end Quotas

/-! ### The client -/

/-- What `_request` of the client ends with. -/
inductive Reply where
  | returned (response : HttpResponse)
  | apiError (response : HttpResponse)
  | transportError (attempts : ℕ)

/-- `_should_retry_response`, before the last attempt. -/
def shouldRetryResponse (method : String) (keyed : Bool) (response : HttpResponse) : Bool :=
  response.statusCode ∈ [429, 502, 503, 504] && (method ∈ ["GET", "HEAD", "OPTIONS"] || keyed)

section Client

variable (maxTransportRetries : ℕ) (method : String) (keyed : Bool) (expected : List ℤ)
  (exchange : ℕ → Option HttpResponse)

/-- The end of `_request`. -/
def concludedReply (response : HttpResponse) : Reply :=
  if response.statusCode ∈ expected then .returned response else .apiError response

/-- The attempts that are left; `exchange n` is the answer to the `n`th one, or nothing
for a `TransportError`. -/
def attempts : ℕ → Reply
  | 0 =>
    match exchange maxTransportRetries with
    | some response => concludedReply expected response
    | none => .transportError (maxTransportRetries + 1)
  | left + 1 =>
    match exchange (maxTransportRetries - (left + 1)) with
    | some response =>
      if shouldRetryResponse method keyed response then attempts left else concludedReply expected response
    | none => attempts left

/-- `_request` of the client. -/
def request : Reply := attempts maxTransportRetries method keyed expected exchange maxTransportRetries

variable {maxTransportRetries method keyed expected exchange}

/-- A client returns what it has received with a status that it expects. -/
theorem received_of_returned {response : HttpResponse}
    (h : request maxTransportRetries method keyed expected exchange = .returned response) :
    response.statusCode ∈ expected ∧ ∃ n, exchange n = some response := by
  have hconcluded : ∀ n answer, exchange n = some answer → concludedReply expected answer = .returned response →
      response.statusCode ∈ expected ∧ ∃ n, exchange n = some response := by
    intro n answer hn hr
    unfold concludedReply at hr
    split at hr
    · rename_i hmem
      cases hr
      exact ⟨hmem, n, hn⟩
    · cases hr
  have hattempts : ∀ left, attempts maxTransportRetries method keyed expected exchange left = .returned response →
      response.statusCode ∈ expected ∧ ∃ n, exchange n = some response := by
    intro left
    induction left with
    | zero =>
      intro hr
      unfold attempts at hr
      cases hx : exchange maxTransportRetries with
      | none => rw [hx] at hr; cases hr
      | some answer => rw [hx] at hr; exact hconcluded _ answer hx hr
    | succ left ih =>
      intro hr
      unfold attempts at hr
      cases hx : exchange (maxTransportRetries - (left + 1)) with
      | none => rw [hx] at hr; exact ih hr
      | some answer =>
        rw [hx] at hr
        dsimp only at hr
        split at hr
        · exact ih hr
        · exact hconcluded _ answer hx hr
  exact hattempts maxTransportRetries h

/-- A client that only receives statuses it does not expect does not return. -/
theorem request_ne_returned (h : ∀ n response, exchange n = some response → response.statusCode ∉ expected)
    (response : HttpResponse) :
    request maxTransportRetries method keyed expected exchange ≠ .returned response := by
  intro hr
  obtain ⟨hmem, n, hn⟩ := received_of_returned hr
  exact h n response hn hmem

end Client

/-! ### The record between them -/

section Refusals

variable {operation key : String} {o : SetOrder} {store : SqliteStore} {u v t : Server} {i : ℕ}
  {first : Request} {problem : APIProblem} {disk abortDisk : Bool}

theorem orderly_run {es : List Event} (hfree : recordOf operation key store = none)
    (h : Run (fun s => s.step operation key o) Free (Server.init store) es u) : Orderly operation key u :=
  h.invariant (I := Orderly operation key) (fun _ _ _ hi _ hv => orderly_step hi hv) (orderly_init hfree)

/-- The repeats of a request: those of its fingerprint that have not begun in `v`. -/
structure Repeats (first : Request) (v t : Server) (j : ℕ) (again : Request) : Prop where
  there : t.requests[j]? = some again
  same : again.fingerprint = first.fingerprint
  late : ∀ earlier, v.requests[j]? = some earlier → earlier.stage = .arrived

@[simp] theorem storedHttpResponse_statusCode (stored : StoredResponse) :
    (storedHttpResponse stored).statusCode = stored.statusCode := by
  unfold storedHttpResponse
  split <;> rfl

/-- What follows a refusal: a settled record of it. -/
theorem settled_of_refusal (hi : Orderly operation key u) (hget : u.requests[i]? = some first)
    (hrefused : u.step operation key o (.finish i (.problem problem) disk abortDisk) = some v) :
    ∃ record, Settled operation key record v ∧ record.requestFingerprint = first.fingerprint ∧
      (∀ stored, record.response = some stored → stored.statusCode = problem.status) ∧
      ∀ answer, v.requests[i]? = some answer → ∀ response, answer.response = some response →
        response.statusCode = problem.status ∨ response.statusCode = 500 := by
  obtain ⟨first', hget', h⟩ := Option.bind_eq_some_iff.mp hrefused
  rw [hget] at hget'
  cases hget'
  split at h
  · rename_i hexecuting
    cases hf : finish operation key (.problem problem) disk abortDisk first u.store with
    | mk stage s' =>
      rw [hf] at h
      cases h
      have hended : stage ≠ .executing → ∀ (j : ℕ) (request : Request),
          (u.move i first (stage, s')).requests[j]? = some request → request.stage ≠ .executing := by
        intro hstage j request hj
        rcases get_move hget hj with ⟨-, rfl⟩ | ⟨hne, hj⟩
        · exact hstage
        · intro hex
          exact hne (hi.alone j i request first hj hget hex hexecuting)
      have hanswer : ∀ answer, (u.move i first (stage, s')).requests[i]? = some answer →
          answer = { first with stage := stage } := by
        intro answer ha
        rw [get_moved hget] at ha
        exact (Option.some.inj ha).symm
      rcases refusal_record (hi.reserved i first hget hexecuting) hf with ⟨stored, rfl, hstatus, hrec⟩ | ⟨rfl, hrec⟩
      · refine ⟨_, ⟨hrec, hended Stage.noConfusion⟩, rfl, ?_, ?_⟩
        · intro stored' h'
          cases h'
          exact hstatus
        · intro answer ha response hr
          cases hanswer answer ha
          cases hr
          exact .inl (by simpa using hstatus)
      · refine ⟨_, ⟨hrec, hended Stage.noConfusion⟩, rfl, ?_, ?_⟩
        · intro stored' h'
          cases h'
        · intro answer ha response hr
          cases hanswer answer ha
          cases hr
          exact .inr rfl
  · cases h

/-- A repeat of a refused request is answered from the record of the refusal: it never
executes, and no execution of the operation follows the refusal. -/
theorem repeat_of_refusal {fs : List Event} (hi : Orderly operation key u) (hget : u.requests[i]? = some first)
    (hrefused : u.step operation key o (.finish i (.problem problem) disk abortDisk) = some v)
    (hafter : Run (fun s => s.step operation key o) Free v fs t) :
    t.completed = v.completed ∧ ∀ j again, Repeats first v t j again → again.stage ≠ .executing ∧
      ∀ response, again.response = some response →
        response.statusCode = problem.status ∨ response.statusCode = 409 ∨ response.statusCode = 500 := by
  obtain ⟨record, hs, hfp, hstatus, -⟩ := settled_of_refusal hi hget hrefused
  let late (j : ℕ) : Prop := ∀ earlier, v.requests[j]? = some earlier → earlier.stage = .arrived
  have hstart : Followed record True late v := by
    intro j request hj hrequest _
    rw [hj request hrequest]
    exact .arrived
  obtain ⟨-, hs', hfollowed, hc⟩ : Orderly operation key t ∧ Settled operation key record t ∧
      Followed record True late t ∧ t.completed = v.completed := by
    refine hafter.invariant (I := fun s => Orderly operation key s ∧ Settled operation key record s ∧
      Followed record True late s ∧ s.completed = v.completed) ?_ ⟨orderly_step hi hrefused, hs, hstart, rfl⟩
    rintro s e w ⟨hi, hs, hf, hc⟩ - hw
    refine ⟨orderly_step hi hw, settled_step hi hs hw, followed_step hi hs hf (fun _ _ _ _ _ => .inl trivial) hw, ?_⟩
    rw [← hc]
    refine completed_step ?_ hw
    rintro k outcome disk' abortDisk' rfl
    obtain ⟨request, hk, hw⟩ := Option.bind_eq_some_iff.mp hw
    split at hw
    · rename_i hexecuting
      exact hs.nobody k request hk hexecuting
    · cases hw
  refine ⟨hc, ?_⟩
  intro j again hagain
  refine ⟨hs'.nobody j again hagain.there, ?_⟩
  intro response hr
  have hfollows := hfollowed j again hagain.late hagain.there (hagain.same.trans hfp.symm)
  unfold Request.response at hr
  generalize again.stage = stage at hfollows hr
  cases hfollows with
  | arrived => cases hr
  | answered h =>
    cases hr
    exact .inl (by simpa using hstatus _ h)
  | waiting h => cases hr
  | inProgress h => cases hr; exact .inr (.inl rfl)
  | cancelled h => cases hr
  | raised h => cases hr; exact .inr (.inr rfl)

/-- Whatever happens after a retriable refusal of a quota, and whenever: the operation is
not executed under its key, no repeat is answered with a success, and no client that
repeats the request returns one. -/
theorem retriable_refusal_never_clears {float : ℚ → Value} {limits : RuntimeLimits} {tenantId : String}
    {memory : Memory} {es fs : List Event} (hquota : QuotaRefusal float limits tenantId memory problem)
    (hfree : recordOf operation key store = none)
    (hbefore : Run (fun s => s.step operation key o) Free (Server.init store) es u)
    (hget : u.requests[i]? = some first)
    (hrefused : u.step operation key o (.finish i (.problem problem) disk abortDisk) = some v)
    (hafter : Run (fun s => s.step operation key o) Free v fs t) :
    t.completed = v.completed ∧
      (∀ j again, Repeats first v t j again → again.stage ≠ .executing ∧
        ∀ response, again.response = some response → 400 ≤ response.statusCode) ∧
      ∀ (maxTransportRetries : ℕ) (method : String) (keyed : Bool) (expected : List ℤ)
        (exchange : ℕ → Option HttpResponse), (∀ status ∈ expected, status < 400) →
        (∀ n response, exchange n = some response → v.requests[i]?.bind Request.response = some response ∨
          ∃ j again, Repeats first v t j again ∧ again.response = some response) →
        ∀ response, request maxTransportRetries method keyed expected exchange ≠ .returned response := by
  have hi := orderly_run hfree hbefore
  obtain ⟨hc, hrepeat⟩ := repeat_of_refusal hi hget hrefused hafter
  obtain ⟨-, -, -, -, hfirst⟩ := settled_of_refusal hi hget hrefused
  have hstatus := hquota.status
  have hfails : ∀ j again, Repeats first v t j again → ∀ response, again.response = some response →
      400 ≤ response.statusCode := by
    intro j again hagain response hr
    rcases (hrepeat j again hagain).2 response hr with h | h | h <;> omega
  refine ⟨hc, fun j again hagain => ⟨(hrepeat j again hagain).1, hfails j again hagain⟩, ?_⟩
  intro maxTransportRetries method keyed expected exchange hexpected hexchange response
  refine request_ne_returned ?_ response
  intro n answer hn hmem
  have hsmall := hexpected _ hmem
  rcases hexchange n answer hn with hr | ⟨j, again, hagain, hr⟩
  · obtain ⟨r, hr, hresponse⟩ := Option.bind_eq_some_iff.mp hr
    rcases hfirst r hr answer hresponse with h | h <;> omega
  · have := hfails j again hagain answer hr
    omega

end Refusals

namespace Refused

/-- A service that allows one active run to a tenant. -/
def limits : RuntimeLimits := { maxActiveRunsPerTenant := 1 }

def budget : Budget := ⟨20, 3600, 20⟩

def step : Server → Event → Option Server := fun s => s.step "tenant:createRun" "key" Store.inOrder

/-- The tenant has an active run, and asks for another one. -/
def before : List Event :=
  [.other (.createRun (.dict [("tenant_id", .str "tenant"), ("status", .str "RUNNING")])) true,
    .arrive "f" "corr_1", .begin 0 true]

/-- The active run ends. -/
def cleared : List Event :=
  [.other (.updateRun "run_000000000001" (.dict [("status", .str "TERMINAL")]) none true) true]

/-- The client repeats its request. -/
def again : List Event := [.arrive "f" "corr_2", .begin 1 true]

def problem : APIProblem := activeRunLimitExceeded (fun _ => .null) limits 1

theorem enforceRunLimits_eq (memory : Memory) :
    enforceRunLimits (fun _ => .null) limits "tenant" budget memory =
      if 1 ≤ tenantActiveRunCount "tenant" memory then
        .error (activeRunLimitExceeded (fun _ => .null) limits (tenantActiveRunCount "tenant" memory))
      else .ok () := by
  have hbudget : limits.validateBudget (fun _ => .null) budget = .ok () := rfl
  unfold enforceRunLimits
  rw [hbudget]
  show (if (1 : ℤ) ≤ tenantActiveRunCount "tenant" memory then _ else _) = _
  simp only [Nat.one_le_cast]

/-- The repeat is not executed though the quota is free: it is answered with the refusal. -/
theorem history :
    ((exec step Free (Server.init .init) before).bind fun u =>
      (step u (.finish 0 (.problem problem) true true)).bind fun v =>
      (exec step Free v cleared).bind fun w => (exec step Free w again).map fun t =>
        (tenantActiveRunCount "tenant" u.store.memory, (u.requests[0]?).map Request.fingerprint,
          tenantActiveRunCount "tenant" w.store.memory, w.requests.length,
          ((t.requests[1]?).bind Request.response).map HttpResponse.statusCode))
      = some (1, some "f", 0, 1, some 429) := by decide +kernel

theorem history_eq : ∃ (u v w t : Server) (first : Request), exec step Free (Server.init .init) before = some u ∧
    step u (.finish 0 (.problem problem) true true) = some v ∧ exec step Free v cleared = some w ∧
    exec step Free w again = some t ∧ u.requests[0]? = some first ∧ first.fingerprint = "f" ∧
    tenantActiveRunCount "tenant" u.store.memory = 1 ∧ tenantActiveRunCount "tenant" w.store.memory = 0 ∧
    w.requests.length = 1 ∧ ((t.requests[1]?).bind Request.response).map HttpResponse.statusCode = some 429 := by
  obtain ⟨u, hu, h⟩ := Option.bind_eq_some_iff.mp history
  obtain ⟨v, hv, h⟩ := Option.bind_eq_some_iff.mp h
  obtain ⟨w, hw, h⟩ := Option.bind_eq_some_iff.mp h
  obtain ⟨t, ht, h⟩ := Option.map_eq_some_iff.mp h
  simp only [Prod.mk.injEq] at h
  obtain ⟨hactive, hfirst, hfree, hlength, hstatus⟩ := h
  obtain ⟨first, hget, hfp⟩ := Option.map_eq_some_iff.mp hfirst
  exact ⟨u, v, w, t, first, hu, hv, hw, ht, hget, hfp, hactive, hfree, hlength, hstatus⟩

end Refused

theorem retriable_refusal_never_clears_run_limit :
    ∃ (u v t : Server) (first : Request), u.requests[0]? = some first ∧ QuotaRefusal (fun _ => .null) Refused.limits "tenant"
        u.store.memory Refused.problem ∧ t.completed = v.completed ∧
      ∀ j again, Repeats first v t j again → again.stage ≠ .executing := by
  obtain ⟨u, v, w, t, first, hu, hv, hw, ht, hget, -, hactive, -⟩ := Refused.history_eq
  have hquota : QuotaRefusal (fun _ => .null) Refused.limits "tenant" u.store.memory Refused.problem := by
    refine ⟨rfl, .inr ⟨Refused.budget, ?_⟩⟩
    rw [Refused.enforceRunLimits_eq, hactive]
    rfl
  have h := retriable_refusal_never_clears hquota rfl (run_of_exec hu) hget hv
    ((run_of_exec hw).append (run_of_exec ht))
  exact ⟨u, v, t, first, hget, hquota, h.1, fun j again hagain => (h.2.1 j again hagain).1⟩

/-- A run is refused for the run limit; the active run ends; the repeat of the request
under its key is not executed. -/
theorem retriable_refusal_sticks :
    ¬ ∀ (float : ℚ → Value) (limits : RuntimeLimits) (tenantId : String) (budget : Budget) (operation key : String)
      (o : SetOrder) (store : SqliteStore) (es fs : List Event) (u v w t : Server) (i : ℕ) (first : Request)
      (problem : APIProblem) (correlationId : String),
      recordOf operation key store = none →
      Run (fun s => s.step operation key o) Free (Server.init store) es u → u.requests[i]? = some first →
      enforceRunLimits float limits tenantId budget u.store.memory = .error problem → problem.retriable →
      u.step operation key o (.finish i (.problem problem) true true) = some v →
      Run (fun s => s.step operation key o) Free v fs w →
      enforceRunLimits float limits tenantId budget w.store.memory = .ok () →
      Run (fun s => s.step operation key o) Free w
        [.arrive first.fingerprint correlationId, .begin w.requests.length true] t →
      ∃ again, t.requests[w.requests.length]? = some again ∧ again.stage = .executing := by
  intro hall
  obtain ⟨u, v, w, t, first, hu, hv, hw, ht, hget, hfp, hactive, hfree, hlength, hstatus⟩ := Refused.history_eq
  have hrefused : enforceRunLimits (fun _ => .null) Refused.limits "tenant" Refused.budget u.store.memory =
      .error Refused.problem := by
    rw [Refused.enforceRunLimits_eq, hactive]
    rfl
  have hclear : enforceRunLimits (fun _ => .null) Refused.limits "tenant" Refused.budget w.store.memory = .ok () := by
    rw [Refused.enforceRunLimits_eq, hfree]
    rfl
  obtain ⟨again, hagain, hex⟩ := hall (fun _ => .null) Refused.limits "tenant" Refused.budget "tenant:createRun"
    "key" Store.inOrder .init Refused.before Refused.cleared u v w t 0 first Refused.problem "corr_2" rfl
    (run_of_exec hu) hget hrefused rfl hv (run_of_exec hw) hclear
    (by rw [hfp, hlength]; exact run_of_exec ht)
  rw [hlength] at hagain
  rw [hagain] at hstatus
  simp [Request.response, hex] at hstatus

end AutomlApi.Requests
