import AutomlApi.Requests.Retries

/-! The calls of the client that change something, through the retries of the client and
the records of the service. An execution applies the effects of its call in one
transaction among others. They are applied once if no execution that has applied them
takes its reservation back. -/

namespace AutomlApi.Requests

open Runs
open Store (Fields IdempotencyRecord Op SetOrder SqliteStore StoredResponse Value)

/-! ### The calls -/

/-- The calls of the client that carry an Idempotency-Key. -/
inductive Mutation where
  | createDataset
  | signUploadParts
  | finalizeDataset
  | createRun
  | answerDecisionPacket
  | pauseRun
  | resumeRun
  | cancelRun
  | decideApproval
  | createWebhookEndpoint
  | deleteWebhookEndpoint
  | rotateWebhookEndpointSecret
  | enableWebhookEndpoint
  | redeliverWebhookDelivery
  | deleteDataset
  | createArtifactDownloadTicket

namespace Mutation

def method : Mutation → String
  | deleteWebhookEndpoint | deleteDataset => "DELETE"
  | _ => "POST"

/-- The status that the client expects and the operation returns. -/
def expected : Mutation → ℤ
  | createDataset | createWebhookEndpoint | rotateWebhookEndpointSecret | createArtifactDownloadTicket => 201
  | signUploadParts | enableWebhookEndpoint => 200
  | deleteWebhookEndpoint => 204
  | _ => 202

def operationId : Mutation → String
  | createDataset => "createDatasetUpload"
  | signUploadParts => "signDatasetUploadParts"
  | finalizeDataset => "finalizeDatasetUpload"
  | createRun => "createRun"
  | answerDecisionPacket => "answerDecisionPacket"
  | pauseRun => "pauseRun"
  | resumeRun => "resumeRun"
  | cancelRun => "cancelRun"
  | decideApproval => "decideApproval"
  | createWebhookEndpoint => "createWebhookEndpoint"
  | deleteWebhookEndpoint => "deleteWebhookEndpoint"
  | rotateWebhookEndpointSecret => "rotateWebhookEndpointSecret"
  | enableWebhookEndpoint => "enableWebhookEndpoint"
  | redeliverWebhookDelivery => "redeliverWebhookDelivery"
  | deleteDataset => "deleteDataset"
  | createArtifactDownloadTicket => "createArtifactDownloadTicket"

/-- Whether a call of the store is the one by which `execute()` applies its effects; it
makes one such call at most. -/
def applies : Mutation → Op → Bool
  | createDataset, .createDatasetWithVersion .. => true
  | finalizeDataset, .updateDatasetVersion .. => true
  | createRun, .createRun _ => true
  | answerDecisionPacket, .createCommand _ => true
  | pauseRun, .createCommand _ => true
  | resumeRun, .createCommand _ => true
  | cancelRun, .createCommand _ => true
  | decideApproval, .createCommand _ => true
  | createWebhookEndpoint, .createWebhookEndpoint _ => true
  | deleteWebhookEndpoint, .updateWebhookEndpoint .. => true
  | rotateWebhookEndpointSecret, .updateWebhookEndpoint .. => true
  | enableWebhookEndpoint, .updateWebhookEndpoint .. => true
  | redeliverWebhookDelivery, .updateWebhookDelivery .. => true
  | deleteDataset, .createDeletion _ => true
  | _, _ => false

/-- Whether `execute()` returns only after that call: two of the calls write nothing, and
three find that there is nothing left to do. -/
def always : Mutation → Bool
  | signUploadParts | createArtifactDownloadTicket => false
  | finalizeDataset | deleteWebhookEndpoint | enableWebhookEndpoint => false
  | _ => true

theorem expected_lt (m : Mutation) : m.expected < 400 := by
  cases m <;> decide

theorem expected_ne (m : Mutation) : m.expected ∉ [429, 502, 503, 504] := by
  cases m <;> decide

end Mutation

/-! ### The service -/

/-- The server, and the requests in the order in which their executions have applied their
effects. -/
structure Service where
  server : Server
  applied : List ℕ

def Service.init (store : SqliteStore) : Service := ⟨.init store, []⟩

/-- What may happen to the service: a call of the store by the execution of a request, or
what may happen to the server, calls of the store by anybody else among it. -/
inductive CallEvent where
  | transact (i : ℕ) (op : Op) (disk : Bool)
  | serve (e : Event)

/-- How an execution may end: a problem has the status of a failure. -/
def Mutation.mayEnd (m : Mutation) (applied : List ℕ) : Event → Bool
  | .finish i (.completed statusCode _ _) _ _ => statusCode = m.expected ∧ (m.always → i ∈ applied)
  | .finish _ (.problem problem) _ _ => 400 ≤ problem.status
  | _ => true

/-- An execution that runs to its end has applied its effects. -/
def appliedBy (applied : List ℕ) : Event → List ℕ
  | .finish i outcome _ _ => if outcome.completes ∧ i ∉ applied then applied ++ [i] else applied
  | _ => applied

section Service

variable (m : Mutation) (operation key : String) (o : SetOrder)

def Service.step (s : Service) : CallEvent → Option Service
  | .transact i op disk =>
    (s.server.requests[i]?).bind fun request =>
      match request.stage with
      | .executing =>
        if m.applies op ∧ i ∈ s.applied then none
        else (s.server.step operation key o (.other op disk)).map fun server =>
          ⟨server, if m.applies op ∧ (op.apply o disk s.server.store).1.isOk then s.applied ++ [i] else s.applied⟩
      | _ => none
  | .serve e =>
    if m.mayEnd s.applied e then
      (s.server.step operation key o e).map fun server => ⟨server, appliedBy s.applied e⟩
    else none

end Service

/-- The operation of a call under the record of its tenant. -/
def Mutation.scoped (m : Mutation) (tenantId : String) : String := tenantId ++ ":" ++ m.operationId

/-- What a call of the client may receive at its attempts: nothing, where the request or
its response is lost; the reply of a gateway; the response to one of its requests. -/
def Exchanged (fingerprint : String) (s : Server) (exchange : ℕ → Option HttpResponse) : Prop :=
  ∀ n response, exchange n = some response → response.statusCode ∈ [429, 502, 503, 504] ∨
    ∃ (j : ℕ) (request : Request), s.requests[j]? = some request ∧ request.fingerprint = fingerprint ∧
      request.response = some response

/-- The effects are applied once at most, and once if the client returns, with the response
of the execution that has applied them. -/
structure AppliedOnce (m : Mutation) (s : Service) : Prop where
  atMost : s.applied.length ≤ 1
  returned : ∀ (maxTransportRetries : ℕ) (fingerprint : String) (exchange : ℕ → Option HttpResponse)
    (response : HttpResponse), Exchanged fingerprint s.server exchange →
    request maxTransportRetries m.method true [m.expected] exchange = .returned response →
    ∃ (i : ℕ) (execution : Request), s.applied = [i] ∧ s.server.requests[i]? = some execution ∧
      execution.fingerprint = fingerprint ∧ execution.response = some response

/-! ### Answers and the executions they come from -/

section Answers

variable {operation key : String} {o : SetOrder} {t u : Server} {e : Event} {applied applied' : List ℕ}
  {stored : StoredResponse} {fingerprint : String}

/-- An execution that has applied its effects has answered with a response. -/
def Traced (applied : List ℕ) (t : Server) (stored : StoredResponse) (fingerprint : String) : Prop :=
  ∃ i ∈ applied, ∃ execution, t.requests[i]? = some execution ∧ execution.stage = .answered stored ∧
    execution.fingerprint = fingerprint

/-- A stage whose answer, if it is a success, is traced; what is refused is no success. -/
inductive Backed (traced : StoredResponse → Prop) : Stage → Prop
  | answered {stored : StoredResponse} (h : stored.statusCode < 400 → traced stored) : Backed traced (.answered stored)
  | refused {problem : APIProblem} (h : 400 ≤ problem.status) : Backed traced (.refused problem)
  | arrived : Backed traced .arrived
  | waiting : Backed traced .waiting
  | executing : Backed traced .executing
  | raised : Backed traced .raised
  | cancelled : Backed traced .cancelled

theorem Backed.mono {traced traced' : StoredResponse → Prop} {stage : Stage} (h : Backed traced stage)
    (himp : ∀ stored, traced stored → traced' stored) : Backed traced' stage := by
  cases h with
  | answered h => exact .answered fun hlt => himp _ (h hlt)
  | refused h => exact .refused h
  | _ => constructor

/-- Every success that is recorded or has been answered is that of an execution that has
applied its effects. -/
structure Answers (operation key : String) (applied : List ℕ) (t : Server) : Prop where
  recorded : ∀ record stored, recordOf operation key t.store = some record → record.response = some stored →
    stored.statusCode < 400 → Traced applied t stored record.requestFingerprint
  backed : ∀ (j : ℕ) (request : Request), t.requests[j]? = some request →
    Backed (fun stored => Traced applied t stored request.fingerprint) request.stage

/-- A request that has been answered does not move. -/
theorem answered_stays {i : ℕ} {request : Request} (hget : t.requests[i]? = some request)
    (hstage : request.stage = .answered stored) (h : t.step operation key o e = some u) :
    u.requests[i]? = some request := by
  have hset : ∀ {j : ℕ} {other moved : Request}, t.requests[j]? = some other →
      (∀ answer, other.stage ≠ .answered answer) → (t.requests.set j moved)[i]? = some request := by
    intro j other moved hother hne
    have hij : j ≠ i := by
      rintro rfl
      rw [hget] at hother
      cases hother
      exact hne stored hstage
    rw [List.getElem?_set_ne hij]
    exact hget
  cases e with
  | arrive fingerprint correlationId =>
    cases h
    exact (List.getElem?_append_left (List.getElem?_eq_some_iff.mp hget).1).trans hget
  | other op disk =>
    simp only [Server.step, Option.ite_none_left_eq_some, Option.some.injEq] at h
    obtain ⟨-, rfl⟩ := h
    exact hget
  | begin j disk | look j timedOut | finish j outcome disk abortDisk | cancel j =>
    obtain ⟨other, hother, h⟩ := Option.bind_eq_some_iff.mp h
    split at h
    all_goals
      first
      | cases h; done
      | rename_i hother'
        cases h
        exact hset hother fun answer ha => by rw [ha] at hother'; cases hother'

theorem Traced.step (hr : Traced applied t stored fingerprint) (hmore : ∀ i ∈ applied, i ∈ applied')
    (h : t.step operation key o e = some u) : Traced applied' u stored fingerprint := by
  obtain ⟨i, hi, execution, hget, hstage, hfp⟩ := hr
  exact ⟨i, hmore i hi, execution, answered_stays hget hstage h, hstage, hfp⟩

theorem answers_init {store : SqliteStore} (hfree : recordOf operation key store = none) :
    Answers operation key applied (Server.init store) where
  recorded record stored hrec := by rw [show (Server.init store).store = store from rfl, hfree] at hrec; cases hrec
  backed j request hget := by simp [Server.init] at hget

/-- The stage of a request after its execution. -/
theorem get_finished {i : ℕ} {request : Request} {outcome : Outcome} {disk abortDisk : Bool}
    (hget : t.requests[i]? = some request)
    (h : t.step operation key o (.finish i outcome disk abortDisk) = some u) :
    u.requests[i]? = some { request with stage := (finish operation key outcome disk abortDisk request t.store).1 } := by
  obtain ⟨other, hother, h⟩ := Option.bind_eq_some_iff.mp h
  rw [hget] at hother
  cases hother
  split at h
  · cases h
    exact get_moved hget
  · cases h

theorem answers_step (hi : Orderly operation key t) (ha : Answers operation key applied t)
    (hmore : ∀ i ∈ applied, i ∈ applied')
    (hcompletes : ∀ i outcome disk abortDisk, e = .finish i outcome disk abortDisk → outcome.completes → i ∈ applied')
    (hproblem : ∀ i problem disk abortDisk, e = .finish i (.problem problem) disk abortDisk → 400 ≤ problem.status)
    (h : t.step operation key o e = some u) : Answers operation key applied' u := by
  have hold : ∀ {stored fingerprint}, Traced applied t stored fingerprint → Traced applied' u stored fingerprint :=
    fun hr => hr.step hmore h
  have hbacked : ∀ (i : ℕ) (request : Request), u.requests[i]? = some request →
      Backed (fun stored => Traced applied' u stored request.fingerprint) request.stage := by
    refine each_step ?_ ?_ ?_ ?_ ?_ ?_ h
    · intro i request hget
      exact (ha.backed i request hget).mono fun _ => hold
    · intro i fingerprint correlationId
      exact .arrived
    · intro i request disk _ hget harrived
      cases hb : begin operation key disk request t.store with
      | mk stage s' =>
        rcases begin_cases hb with ⟨-, rfl, -⟩ | ⟨-, rfl, -⟩ | ⟨record, hrec, -, rfl⟩ | ⟨rfl, -⟩
        · exact .refused (le_refl _)
        · exact .executing
        · dsimp only
          unfold found
          split
          · exact .refused (by decide)
          · rename_i hfp
            cases hresp : record.response with
            | none => exact .waiting
            | some answer =>
              refine .answered fun hlt => ?_
              rw [← not_ne_iff.mp hfp]
              exact hold (ha.recorded record answer hrec hresp hlt)
        · exact .raised
    · intro i request timedOut hget hwaiting
      dsimp only
      rcases look_cases operation key timedOut request t.store with
        ⟨-, hl⟩ | hl | hl | ⟨record, -, -, detail, hl⟩ | ⟨answer, hrec, hl⟩ <;> rw [hl]
      · exact .raised
      · exact .waiting
      · exact .refused (by decide)
      · exact .refused (show (400 : ℤ) ≤ 409 by decide)
      · exact .answered fun hlt => hold (ha.recorded _ answer hrec rfl hlt)
    · intro i request outcome disk abortDisk he hget hexecuting
      have hs := hi.reserved i request hget hexecuting
      rw [he] at h
      have hfinished := get_finished hget h
      cases hf : finish operation key outcome disk abortDisk request t.store with
      | mk stage s' =>
        rw [hf] at hfinished
        rcases finish_cases hs hf with ⟨stored, rfl, -⟩ | ⟨rfl, -⟩
        · refine .answered fun hlt => ?_
          rcases answer_of_finish hs (congrArg Prod.fst hf) with hc | ⟨problem, rfl, hstatus⟩
          · exact ⟨i, hcompletes i outcome disk abortDisk he hc, _, hfinished, rfl, rfl⟩
          · have := hproblem i problem disk abortDisk he
            omega
        · exact .raised
    · intro i request hget hstage
      exact .cancelled
  refine ⟨?_, hbacked⟩
  intro record stored hrec hresp hlt
  rcases step_cases hi h with ⟨request, harrived, rfl⟩ | ⟨store, hsame, rfl⟩ | ⟨i, request, stage, hget, hreq, hm⟩
  · exact hold (ha.recorded record stored hrec hresp hlt)
  · exact hold (ha.recorded record stored (hsame ▸ hrec) hresp hlt)
  · have hmoved : u.requests[i]? = some { request with stage := stage } := by
      rw [hreq, List.getElem?_set_self (List.getElem?_eq_some_iff.mp hget).1]
    generalize hbefore : recordOf operation key t.store = before at hm
    rw [hrec] at hm
    cases hm with
    | reserve hkey harrived => cases hresp
    | keep hrequest hstage => exact hold (ha.recorded record stored hbefore hresp hlt)
    | record answer hexecuting =>
      cases hresp
      cases hbacked i _ hmoved with
      | answered hr => exact hr hlt
    | leave hexecuting hstage => exact hold (ha.recorded record stored hbefore hresp hlt)

end Answers

/-! ### Effects that are applied once -/

section AppliedOnce

variable {m : Mutation} {operation key : String} {o : SetOrder} {t u : Server} {s s' : Service} {e : Event}
  {request : Request} {i : ℕ}

/-- The condition on a step: an execution that has applied its effects does not take its
reservation back. -/
def Kept (operation key : String) (s : Service) : CallEvent → Prop
  | .serve (.finish i outcome disk abortDisk) => i ∈ appliedBy s.applied (.finish i outcome disk abortDisk) →
      ∀ request ∈ s.server.requests[i]?, ¬ TakenBack operation key request s.server.store disk abortDisk outcome
  | _ => True

instance (operation key : String) (s : Service) (e : CallEvent) : Decidable (Kept operation key s e) :=
  match e with
  | .serve (.finish i _ _ _) => inferInstanceAs (Decidable (_ → ∀ request ∈ s.server.requests[i]?, _))
  | .transact .. | .serve (.arrive ..) | .serve (.begin ..) | .serve (.look ..) | .serve (.cancel _)
  | .serve (.other ..) => inferInstanceAs (Decidable True)

/-- Where the execution that has applied its effects stands: it is under way, or there is
a record for good. -/
def Standing (operation key : String) (i : ℕ) (t : Server) : Prop :=
  (∃ request, t.requests[i]? = some request ∧ request.stage = .executing) ∨ ∃ record, Settled operation key record t

/-- An execution goes on in every step that is not its end. -/
theorem standing_step (hi : Orderly operation key t) (hs : Standing operation key i t)
    (he : ∀ outcome disk abortDisk, e ≠ .finish i outcome disk abortDisk)
    (h : t.step operation key o e = some u) : Standing operation key i u := by
  rcases hs with ⟨request, hget, hexecuting⟩ | ⟨record, hs⟩
  · have hlt := (List.getElem?_eq_some_iff.mp hget).1
    have hmoved : ∀ {j : ℕ} {other : Request} {next : Stage × SqliteStore}, t.requests[j]? = some other → j ≠ i →
        (t.move j other next).requests[i]? = some request := by
      intro j other next hother hne
      show (t.requests.set j _)[i]? = _
      rw [List.getElem?_set_ne hne]
      exact hget
    have hother : ∀ {j : ℕ} {other : Request}, t.requests[j]? = some other → other.stage ≠ .executing → j ≠ i := by
      rintro j other hother hne rfl
      rw [hget] at hother
      cases hother
      exact hne hexecuting
    cases e with
    | arrive fingerprint correlationId =>
      cases h
      exact .inl ⟨request, (List.getElem?_append_left hlt).trans hget, hexecuting⟩
    | other op disk =>
      simp only [Server.step, Option.ite_none_left_eq_some, Option.some.injEq] at h
      obtain ⟨-, rfl⟩ := h
      exact .inl ⟨request, hget, hexecuting⟩
    | begin j disk =>
      obtain ⟨other, hj, h⟩ := Option.bind_eq_some_iff.mp h
      split at h
      · rename_i harrived
        cases h
        exact .inl ⟨request, hmoved hj (hother hj (by rw [harrived]; exact Stage.noConfusion)), hexecuting⟩
      · cases h
    | look j timedOut =>
      obtain ⟨other, hj, h⟩ := Option.bind_eq_some_iff.mp h
      split at h
      · rename_i hwaiting
        cases h
        exact .inl ⟨request, hmoved hj (hother hj (by rw [hwaiting]; exact Stage.noConfusion)), hexecuting⟩
      · cases h
    | finish j outcome disk abortDisk =>
      obtain ⟨other, hj, h⟩ := Option.bind_eq_some_iff.mp h
      split at h
      · rename_i hexec
        have hij := hi.alone j i other request hj hget hexec hexecuting
        rw [hij] at he
        exact absurd rfl (he outcome disk abortDisk)
      · cases h
    | cancel j =>
      obtain ⟨other, hj, h⟩ := Option.bind_eq_some_iff.mp h
      split at h
      · rename_i hwaiting
        cases h
        exact .inl ⟨request, hmoved hj (hother hj (by rw [hwaiting]; exact Stage.noConfusion)), hexecuting⟩
      · rename_i hexec
        cases h
        exact .inr ⟨_, settled_of_end hi hj hexec rfl Stage.noConfusion (hi.reserved j other hj hexec)⟩
      · cases h
  · exact .inr ⟨record, settled_step hi hs h⟩

/-- No execution begins while another one stands. -/
theorem eq_of_standing {j : ℕ} (hi : Orderly operation key t) (hs : Standing operation key j t)
    (hget : t.requests[i]? = some request) (hexecuting : request.stage = .executing) : i = j := by
  rcases hs with ⟨other, hother, hexec⟩ | ⟨record, hs⟩
  · exact hi.alone i j request other hget hother hexecuting hexec
  · exact absurd hexecuting (hs.nobody i request hget)

/-- The effects have been applied by nobody, or by one execution that stands. -/
def Held (operation key : String) (s : Service) : Prop :=
  s.applied = [] ∨ ∃ i, s.applied = [i] ∧ Standing operation key i s.server

theorem Held.eq (hi : Orderly operation key s.server) (hs : Held operation key s)
    (hget : s.server.requests[i]? = some request) (hexecuting : request.stage = .executing) :
    s.applied = [] ∨ s.applied = [i] := by
  rcases hs with hnone | ⟨j, hone, hstands⟩
  · exact .inl hnone
  · rw [hone, eq_of_standing hi hstands hget hexecuting]
    exact .inr rfl

/-- A step of the service is a step of its server. -/
theorem step_server {e : CallEvent} (h : s.step m operation key o e = some s') :
    ∃ e, s.server.step operation key o e = some s'.server := by
  cases e with
  | transact i op disk =>
    obtain ⟨request, -, h⟩ := Option.bind_eq_some_iff.mp h
    split at h
    · split at h
      · cases h
      · obtain ⟨server, hserver, rfl⟩ := Option.map_eq_some_iff.mp h
        exact ⟨_, hserver⟩
    · cases h
  | serve e =>
    simp only [Service.step, Option.ite_none_right_eq_some] at h
    obtain ⟨server, hserver, rfl⟩ := Option.map_eq_some_iff.mp h.2
    exact ⟨_, hserver⟩

theorem held_finish {outcome : Outcome} {disk abortDisk : Bool} (hi : Orderly operation key s.server)
    (hs : Held operation key s) (hok : Kept operation key s (.serve (.finish i outcome disk abortDisk)))
    (h : s.server.step operation key o (.finish i outcome disk abortDisk) = some u) :
    Held operation key ⟨u, appliedBy s.applied (.finish i outcome disk abortDisk)⟩ := by
  have hstep := h
  obtain ⟨request, hget, h⟩ := Option.bind_eq_some_iff.mp h
  split at h
  · rename_i hexecuting
    have happlied := hs.eq hi hget hexecuting
    -- the list of executions is empty, or it is this one
    have hlist : appliedBy s.applied (.finish i outcome disk abortDisk) = [] ∨
        appliedBy s.applied (.finish i outcome disk abortDisk) = [i] := by
      rcases happlied with hnone | hone
      · rw [hnone]
        by_cases hc : outcome.completes = true
        · exact .inr (if_pos ⟨hc, List.not_mem_nil⟩)
        · exact .inl (if_neg fun h => hc h.1)
      · rw [hone]
        exact .inr (if_neg fun h => h.2 (List.mem_singleton_self i))
    rcases hlist with hnone | hone
    · exact .inl hnone
    · have hsettled := settled_of_finish hi hget (hok (by rw [hone]; exact List.mem_singleton_self i) request hget) hstep
      exact .inr ⟨i, hone, .inr hsettled⟩
  · cases h

theorem held_step {e : CallEvent} (hi : Orderly operation key s.server) (hs : Held operation key s)
    (hok : Kept operation key s e) (h : s.step m operation key o e = some s') : Held operation key s' := by
  have hsame : ∀ {e : Event} {u : Server}, (∀ i outcome disk abortDisk, e ≠ .finish i outcome disk abortDisk) →
      s.server.step operation key o e = some u → Held operation key ⟨u, s.applied⟩ := by
    intro e u he hu
    rcases hs with hnone | ⟨j, hone, hstands⟩
    · exact .inl hnone
    · exact .inr ⟨j, hone, standing_step hi hstands (he j) hu⟩
  cases e with
  | transact i op disk =>
    obtain ⟨request, hget, h⟩ := Option.bind_eq_some_iff.mp h
    split at h
    · rename_i hexecuting
      split at h
      · cases h
      · rename_i hfirst
        obtain ⟨server, hserver, rfl⟩ := Option.map_eq_some_iff.mp h
        split
        · rename_i hnow
          have hnone : s.applied = [] := by
            refine (hs.eq hi hget hexecuting).resolve_right fun hone => hfirst ⟨hnow.1, ?_⟩
            rw [hone]
            exact List.mem_singleton_self i
          refine .inr ⟨i, by rw [hnone]; rfl, ?_⟩
          exact standing_step hi (.inl ⟨request, hget, hexecuting⟩) (fun _ _ _ => Event.noConfusion) hserver
        · exact hsame (fun _ _ _ _ => Event.noConfusion) hserver
    · cases h
  | serve e =>
    simp only [Service.step, Option.ite_none_right_eq_some] at h
    obtain ⟨server, hserver, rfl⟩ := Option.map_eq_some_iff.mp h.2
    cases e with
    | finish i outcome disk abortDisk => exact held_finish hi hs hok hserver
    | _ => exact hsame (fun _ _ _ _ => Event.noConfusion) hserver

/-- What is known of every state of a history whose steps meet the condition. -/
structure Known (operation key : String) (s : Service) : Prop where
  orderly : Orderly operation key s.server
  held : Held operation key s
  answers : Answers operation key s.applied s.server

theorem known_step {e : CallEvent} (hs : Known operation key s) (hok : Kept operation key s e)
    (h : s.step m operation key o e = some s') : Known operation key s' := by
  obtain ⟨e', he'⟩ := step_server h
  refine ⟨orderly_step hs.orderly he', held_step hs.orderly hs.held hok h, ?_⟩
  cases e with
  | transact i op disk =>
    obtain ⟨request, hget, h⟩ := Option.bind_eq_some_iff.mp h
    split at h
    · split at h
      · cases h
      · obtain ⟨server, hserver, rfl⟩ := Option.map_eq_some_iff.mp h
        refine answers_step hs.orderly hs.answers ?_ (by intros; contradiction) (by intros; contradiction) hserver
        intro j hj
        dsimp only
        split
        · exact List.mem_append_left _ hj
        · exact hj
    · cases h
  | serve e =>
    simp only [Service.step, Option.ite_none_right_eq_some] at h
    obtain ⟨hmay, h⟩ := h
    obtain ⟨server, hserver, rfl⟩ := Option.map_eq_some_iff.mp h
    refine answers_step hs.orderly hs.answers ?_ ?_ ?_ hserver
    · intro j hj
      unfold appliedBy
      split
      · split
        · exact List.mem_append_left _ hj
        · exact hj
      · exact hj
    · rintro i outcome disk abortDisk rfl hc
      unfold appliedBy
      dsimp only
      split
      · exact List.mem_append_right _ (List.mem_singleton_self i)
      · rename_i hnot
        by_contra hmem
        exact hnot ⟨hc, hmem⟩
    · rintro i problem disk abortDisk rfl
      simpa [Mutation.mayEnd] using hmay

theorem known_run {store : SqliteStore} {es : List CallEvent} (hfree : recordOf operation key store = none)
    (h : Run (fun s => s.step m operation key o) (Kept operation key) (Service.init store) es s) :
    Known operation key s :=
  h.invariant (I := Known operation key) (fun _ _ _ hs hok hu => known_step hs hok hu)
    ⟨orderly_init hfree, .inl rfl, answers_init hfree⟩

/-- What a call of the client returns is the response of the execution that has applied
its effects. -/
theorem execution_of_returned {maxTransportRetries : ℕ} {fingerprint : String} {exchange : ℕ → Option HttpResponse}
    {response : HttpResponse} (hs : Known operation key s) (hx : Exchanged fingerprint s.server exchange)
    (h : Requests.request maxTransportRetries m.method true [m.expected] exchange = .returned response) :
    ∃ i ∈ s.applied, ∃ execution, s.server.requests[i]? = some execution ∧ execution.fingerprint = fingerprint ∧
      execution.response = some response := by
  obtain ⟨hmem, n, hn⟩ := received_of_returned h
  have hexpected := List.mem_singleton.mp hmem
  have hlt : response.statusCode < 400 := hexpected ▸ m.expected_lt
  rcases hx n response hn with hgateway | ⟨j, request, hget, hfp, hresponse⟩
  · rw [hexpected] at hgateway
    exact absurd hgateway m.expected_ne
  · have hbacked := hs.answers.backed j request hget
    unfold Request.response at hresponse
    generalize request.stage = stage at hbacked hresponse
    cases hbacked with
    | answered hr =>
      cases hresponse
      obtain ⟨i, hi, execution, hexecution, hstage, hsame⟩ := hr (by simpa using hlt)
      exact ⟨i, hi, execution, hexecution, hsame.trans hfp, by rw [Request.response, hstage]⟩
    | refused hge =>
      cases hresponse
      exact absurd hlt (not_lt.mpr hge)
    | raised =>
      cases hresponse
      exact absurd hlt (show ¬ (500 : ℤ) < 400 by decide)
    | _ => cases hresponse

/-- Whatever requests, responses and replies are lost, and wherever executions fail: the
effects of a call are applied once at most, and once if it returns. -/
theorem mutation_applied_once {tenantId : String} {store : SqliteStore} {es : List CallEvent}
    (hfree : recordOf (m.scoped tenantId) key store = none)
    (h : Run (fun s => s.step m (m.scoped tenantId) key o) (Kept (m.scoped tenantId) key) (Service.init store) es s) :
    AppliedOnce m s := by
  have hs := known_run hfree h
  refine ⟨?_, ?_⟩
  · rcases hs.held with hnone | ⟨i, hone, -⟩
    · rw [hnone]
      exact Nat.zero_le 1
    · rw [hone]
      exact le_refl 1
  · intro maxTransportRetries fingerprint exchange response hx hreturned
    obtain ⟨i, hi, execution, hget, hfp, hresponse⟩ := execution_of_returned hs hx hreturned
    refine ⟨i, execution, ?_, hget, hfp, hresponse⟩
    rcases hs.held with hnone | ⟨j, hone, -⟩
    · rw [hnone] at hi
      cases hi
    · rw [hone] at hi ⊢
      rw [List.mem_singleton.mp hi]

end AppliedOnce

/-- A run is created and the response is lost; the repeat is answered from the record. -/
def responseLost : List CallEvent :=
  [.serve (.arrive "f" "corr_1"), .serve (.begin 0 true), .transact 0 (.createRun (.dict [])) true,
    .serve (.finish 0 (.completed 202 (.dict []) []) true true), .serve (.arrive "f" "corr_2"),
    .serve (.begin 1 true)]

/-- A run is created and its job is not; the client, which has not heard of the failure,
repeats its request. -/
def jobMissing : List CallEvent :=
  [.serve (.arrive "f" "corr_1"), .serve (.begin 0 true), .transact 0 (.createRun (.dict [])) true,
    .serve (.finish 0 .failed true true), .serve (.arrive "f" "corr_2"), .serve (.begin 1 true),
    .transact 1 (.createRun (.dict [])) true, .serve (.finish 1 (.completed 202 (.dict []) []) true true)]

def calls : Service → CallEvent → Option Service :=
  fun s => s.step .createRun (Mutation.createRun.scoped "tenant") "key" Store.inOrder

theorem mutation_applied_once_response_lost :
    ∃ s, exec calls (Kept (Mutation.createRun.scoped "tenant") "key") (Service.init .init) responseLost = some s ∧
      s.applied = [0] ∧ AppliedOnce .createRun s := by
  have hrun : (exec calls (Kept (Mutation.createRun.scoped "tenant") "key") (Service.init .init)
      responseLost).map Service.applied = some [0] := by decide +kernel
  obtain ⟨s, hs, happlied⟩ := Option.map_eq_some_iff.mp hrun
  exact ⟨s, hs, happlied, mutation_applied_once rfl (run_of_exec hs)⟩

/-- Two runs are created by one call of the client. -/
theorem run_created_twice :
    ¬ ∀ (m : Mutation) (tenantId key : String) (o : SetOrder) (store : SqliteStore) (es : List CallEvent) (s : Service),
      recordOf (m.scoped tenantId) key store = none →
      Run (fun s => s.step m (m.scoped tenantId) key o) Free (Service.init store) es s → AppliedOnce m s := by
  intro hall
  have hrun : (exec calls Free (Service.init .init) jobMissing).map Service.applied = some [0, 1] := by
    decide +kernel
  obtain ⟨s, hs, happlied⟩ := Option.map_eq_some_iff.mp hrun
  have hone := (hall .createRun "tenant" "key" Store.inOrder .init jobMissing s rfl (run_of_exec hs)).atMost
  rw [happlied] at hone
  exact absurd hone (by decide)

end AutomlApi.Requests
