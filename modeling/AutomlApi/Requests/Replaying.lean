import AutomlApi.Requests.Protocol
import AutomlApi.Store.Mutations

/-! A record that no request holds any more stays for good, and every request that comes
later is answered from it. So the answer of an execution is handed out again and its
effects happen once, as long as its reservation is not taken back. -/

namespace AutomlApi.Requests

open Runs
open Store (Fields IdempotencyRecord Op Raised SetOrder SqliteStore StoredResponse Value)

variable {operation key : String} {o : SetOrder} {t u : Server} {e : Event} {record : IdempotencyRecord} {faulty : Prop}

/-! ### Properties of each request -/

/-- What holds of every request, and of one that comes, holds after a step if the request
that moves keeps it. -/
theorem each_step {P : ℕ → Request → Prop} (hp : ∀ i request, t.requests[i]? = some request → P i request)
    (harrive : ∀ i fingerprint correlationId, P i ⟨fingerprint, correlationId, .arrived⟩)
    (hbegin : ∀ i request disk, e = .begin i disk → t.requests[i]? = some request → request.stage = .arrived →
      P i { request with stage := (begin operation key disk request t.store).1 })
    (hlook : ∀ i request timedOut, t.requests[i]? = some request → request.stage = .waiting →
      P i { request with stage := look operation key timedOut request t.store })
    (hfinish : ∀ i request outcome disk abortDisk, e = .finish i outcome disk abortDisk →
      t.requests[i]? = some request → request.stage = .executing →
      P i { request with stage := (finish operation key outcome disk abortDisk request t.store).1 })
    (hcancel : ∀ i request, t.requests[i]? = some request →
      request.stage = .waiting ∨ request.stage = .executing → P i { request with stage := .cancelled })
    (h : t.step operation key o e = some u) : ∀ i request, u.requests[i]? = some request → P i request := by
  have hmove : ∀ {i : ℕ} {request moved : Request}, t.requests[i]? = some request → P i moved →
      ∀ j r, (t.requests.set i moved)[j]? = some r → P j r := by
    intro i request moved hget hmoved j r hr
    rcases get_move hget hr with ⟨rfl, rfl⟩ | ⟨-, hr⟩
    · exact hmoved
    · exact hp j r hr
  cases e with
  | arrive fingerprint correlationId =>
    cases h
    intro j r hr
    rcases get_came hr with hr | rfl
    · exact hp j r hr
    · exact harrive j fingerprint correlationId
  | other op disk =>
    simp only [Server.step, Option.ite_none_left_eq_some, Option.some.injEq] at h
    obtain ⟨-, rfl⟩ := h
    exact hp
  | begin i disk =>
    obtain ⟨request, hget, h⟩ := Option.bind_eq_some_iff.mp h
    split at h
    · rename_i harrived
      cases h
      exact hmove hget (hbegin i request disk rfl hget harrived)
    · cases h
  | look i timedOut =>
    obtain ⟨request, hget, h⟩ := Option.bind_eq_some_iff.mp h
    split at h
    · rename_i hwaiting
      cases h
      exact hmove hget (hlook i request timedOut hget hwaiting)
    · cases h
  | finish i outcome disk abortDisk =>
    obtain ⟨request, hget, h⟩ := Option.bind_eq_some_iff.mp h
    split at h
    · rename_i hexecuting
      cases h
      exact hmove hget (hfinish i request outcome disk abortDisk rfl hget hexecuting)
    · cases h
  | cancel i =>
    obtain ⟨request, hget, h⟩ := Option.bind_eq_some_iff.mp h
    split at h
    · rename_i hwaiting
      cases h
      exact hmove hget (hcancel i request hget (.inl hwaiting))
    · rename_i hexecuting
      cases h
      exact hmove hget (hcancel i request hget (.inr hexecuting))
    · cases h

/-! ### Records that nobody holds -/

/-- There is a record, and the request that made it has ended. -/
structure Settled (operation key : String) (record : IdempotencyRecord) (t : Server) : Prop where
  kept : recordOf operation key t.store = some record
  nobody : ∀ (i : ℕ) (request : Request), t.requests[i]? = some request → request.stage ≠ .executing

theorem settled_of_response {stored : StoredResponse} (hi : Orderly operation key t)
    (hrec : recordOf operation key t.store = some record) (hresp : record.response = some stored) :
    Settled operation key record t where
  kept := hrec
  nobody i request hget hex := by
    have := hi.reserved i request hget hex
    rw [hrec] at this
    cases this
    cases hresp

/-- Only the request that executes writes the record, and a record that is there is never
reserved. -/
theorem settled_step (hi : Orderly operation key t) (hs : Settled operation key record t)
    (h : t.step operation key o e = some u) : Settled operation key record u := by
  rcases step_cases hi h with ⟨request, harrived, rfl⟩ | ⟨store, hrec, rfl⟩ | ⟨i, request, stage, hget, hreq, hm⟩
  · refine ⟨hs.kept, ?_⟩
    intro j r hr
    rcases get_came hr with hr | rfl
    · exact hs.nobody j r hr
    · rw [harrived]; exact Stage.noConfusion
  · exact ⟨hrec.trans hs.kept, hs.nobody⟩
  · have hne := hs.nobody i request hget
    generalize hnew : recordOf operation key u.store = new at hm
    rw [hs.kept] at hm
    cases hm with
    | keep hrequest hstage =>
      refine ⟨hnew, ?_⟩
      intro j r hr
      rw [hreq] at hr
      rcases get_move hget hr with ⟨-, rfl⟩ | ⟨-, hr⟩
      · exact hstage
      · exact hs.nobody j r hr
    | record stored hexecuting => exact absurd hexecuting hne
    | abort hexecuting => exact absurd hexecuting hne
    | leave hexecuting hstage => exact absurd hexecuting hne

/-- What a request may come to that begins when a settled record of its fingerprint is
there; `faulty` says whether a reservation may fail. -/
inductive Follows (record : IdempotencyRecord) (faulty : Prop) : Stage → Prop
  | arrived : Follows record faulty .arrived
  | answered {stored : StoredResponse} (h : record.response = some stored) : Follows record faulty (.answered stored)
  | waiting (h : record.response = none) : Follows record faulty .waiting
  | inProgress (h : record.response = none) : Follows record faulty (.refused idempotencyRequestInProgress)
  | cancelled (h : record.response = none) : Follows record faulty .cancelled
  | raised (h : faulty ∨ record.response = none) : Follows record faulty .raised

/-- The requests of the fingerprint that are among `late` follow the record. -/
def Followed (record : IdempotencyRecord) (faulty : Prop) (late : ℕ → Prop) (t : Server) : Prop :=
  ∀ (i : ℕ) (request : Request), late i → t.requests[i]? = some request →
    request.fingerprint = record.requestFingerprint → Follows record faulty request.stage

theorem follows_begin {disk : Bool} {request : Request} {s s' : SqliteStore} {stage : Stage}
    (hkey : ¬ invisible key) (hrec : recordOf operation key s = some record)
    (hfp : request.fingerprint = record.requestFingerprint)
    (hok : faulty ∨ (durably (Store.beginIdempotentRequest operation key request.fingerprint) disk s).1.isOk)
    (h : begin operation key disk request s = (stage, s')) : Follows record faulty stage := by
  rcases begin_cases h with ⟨hinv, -, -⟩ | ⟨-, -, hnone, -⟩ | ⟨found, hold, -, rfl⟩ | ⟨rfl, -, raised, hraised⟩
  · exact absurd hinv hkey
  · rw [hrec] at hnone; cases hnone
  · rw [hrec] at hold
    cases hold
    unfold Requests.found
    rw [if_neg (by rw [hfp]; simp)]
    cases hresp : record.response with
    | none => exact .waiting hresp
    | some stored => exact .answered hresp
  · rw [hraised] at hok
    exact .raised (.inl (hok.resolve_right Bool.noConfusion))

theorem follows_look {timedOut : Bool} {request : Request} {s : SqliteStore}
    (hrec : recordOf operation key s = some record) (hfp : request.fingerprint = record.requestFingerprint)
    (hnone : record.response = none) : Follows record faulty (look operation key timedOut request s) := by
  rcases look_cases operation key timedOut request s with
    ⟨-, hl⟩ | hl | hl | ⟨other, hother, hne, -⟩ | ⟨stored, hstored, -⟩
  · rw [hl]; exact .raised (.inr hnone)
  · rw [hl]; exact .waiting hnone
  · rw [hl]; exact .inProgress hnone
  · rw [hrec] at hother
    cases hother
    exact absurd hfp.symm hne
  · rw [hrec] at hstored
    cases hstored
    cases hnone

/-- A later request follows the record, whatever it does next. -/
theorem followed_step {late : ℕ → Prop} (hi : Orderly operation key t) (hs : Settled operation key record t)
    (hf : Followed record faulty late t)
    (hok : ∀ i disk request, e = .begin i disk → t.requests[i]? = some request →
      faulty ∨ (durably (Store.beginIdempotentRequest operation key request.fingerprint) disk t.store).1.isOk)
    (h : t.step operation key o e = some u) : Followed record faulty late u := by
  have hwaits : ∀ {i : ℕ} {request : Request}, late i → t.requests[i]? = some request →
      request.fingerprint = record.requestFingerprint → request.stage = .waiting → record.response = none := by
    intro i request hlate hget hfp hwaiting
    have hnow := hf i request hlate hget hfp
    rw [hwaiting] at hnow
    cases hnow with
    | waiting hnone => exact hnone
  have heach : ∀ i request, u.requests[i]? = some request → late i →
      request.fingerprint = record.requestFingerprint → Follows record faulty request.stage := by
    refine each_step (fun i request hget hlate => hf i request hlate hget) ?_ ?_ ?_ ?_ ?_ h
    · intro i fingerprint correlationId _ _
      exact .arrived
    · intro i request disk he hget _ _ hfp
      exact follows_begin (hi.visible _ hs.kept) hs.kept hfp (hok i disk request he hget) rfl
    · intro i request timedOut hget hwaiting hlate hfp
      exact follows_look hs.kept hfp (hwaits hlate hget hfp hwaiting)
    · intro i request outcome disk abortDisk _ hget hexecuting _ _
      exact absurd hexecuting (hs.nobody i request hget)
    · intro i request hget hstage hlate hfp
      rcases hstage with hwaiting | hexecuting
      · exact .cancelled (hwaits hlate hget hfp hwaiting)
      · exact absurd hexecuting (hs.nobody i request hget)
  exact fun i request hlate hget => heach i request hget hlate

/-! ### Reservations that are taken back -/

section TakenBack

variable {request : Request} {s s' : SqliteStore} {disk abortDisk : Bool} {outcome : Outcome} {problem : APIProblem}

/-- The end of an execution takes the reservation back: it fails with an unexpected
exception, or its answer has no JSON form or cannot be recorded. -/
def TakenBack (operation key : String) (request : Request) (s : SqliteStore) (disk abortDisk : Bool) : Outcome → Prop
  | .completed statusCode body headers =>
    match body.jsonable with
    | none => (durably (Store.abortIdempotentRequest operation key request.fingerprint) abortDisk s).1.isOk
    | some encoded =>
      let recorded := durably (Store.completeIdempotentRequest operation key request.fingerprint statusCode encoded
        (recordedHeaders request headers)) disk s
      !recorded.1.isOk ∧
        (durably (Store.abortIdempotentRequest operation key request.fingerprint) abortDisk recorded.2).1.isOk
  | .problem _ => False
  | .failed => (durably (Store.abortIdempotentRequest operation key request.fingerprint) abortDisk s).1.isOk

def decidableEncoded {P : Prop} {Q : Value → Prop} [Decidable P] [∀ v, Decidable (Q v)] :
    ∀ encoded : Option Value, Decidable (match encoded with | none => P | some v => Q v)
  | none => inferInstanceAs (Decidable P)
  | some v => inferInstanceAs (Decidable (Q v))

instance : ∀ outcome : Outcome, Decidable (TakenBack operation key request s disk abortDisk outcome)
  | .completed _ body _ => decidableEncoded body.jsonable
  | .problem _ => inferInstanceAs (Decidable False)
  | .failed => inferInstanceAs (Decidable (_ = true))

/-- A refusal is recorded like any other answer, or its reservation stays. -/
theorem refusal_record {s s' : SqliteStore} {stage : Stage}
    (hs : recordOf operation key s = some ⟨request.fingerprint, none⟩)
    (h : finish operation key (.problem problem) disk abortDisk request s = (stage, s')) :
    (∃ stored, stage = .answered stored ∧ stored.statusCode = problem.status ∧
        recordOf operation key s' = some ⟨request.fingerprint, some stored⟩) ∨
      (stage = .raised ∧ recordOf operation key s' = some ⟨request.fingerprint, none⟩) := by
  unfold finish at h
  dsimp only at h
  cases hd : durably (Store.completeIdempotentRequest operation key request.fingerprint problem.status
      (problem.body request.correlationId) (problemHeaders request problem.headers)) disk s with
  | mk r s₁ =>
    rw [hd] at h
    rcases complete_record hs hd with ⟨rfl, hrec⟩ | ⟨⟨raised, rfl⟩, hrec⟩
    · cases h
      exact .inl ⟨_, rfl, rfl, hrec⟩
    · cases h
      exact .inr ⟨rfl, hrec.trans hs⟩

theorem aborted_keeps (hs : recordOf operation key s = some ⟨request.fingerprint, none⟩)
    (hfails : ¬ (durably (Store.abortIdempotentRequest operation key request.fingerprint) abortDisk s).1.isOk) :
    recordOf operation key (aborted operation key abortDisk request s).2 = some ⟨request.fingerprint, none⟩ := by
  unfold aborted
  cases hd : durably (Store.abortIdempotentRequest operation key request.fingerprint) abortDisk s with
  | mk r s₁ =>
    rw [hd] at hfails
    rcases abort_record hs hd with ⟨⟨done, rfl⟩, -⟩ | ⟨-, hrec⟩
    · exact absurd rfl hfails
    · exact hrec.trans hs

/-- An execution that does not take its reservation back leaves a record. -/
theorem record_of_finish (hs : recordOf operation key s = some ⟨request.fingerprint, none⟩)
    (hkept : ¬ TakenBack operation key request s disk abortDisk outcome) :
    ∃ record, recordOf operation key (finish operation key outcome disk abortDisk request s).2 = some record := by
  cases outcome with
  | failed => exact ⟨_, aborted_keeps hs hkept⟩
  | problem problem =>
    cases hf : finish operation key (.problem problem) disk abortDisk request s with
    | mk stage s' =>
      rcases refusal_record hs hf with ⟨stored, -, -, hrec⟩ | ⟨-, hrec⟩
      · exact ⟨_, hrec⟩
      · exact ⟨_, hrec⟩
  | completed statusCode body headers =>
    unfold finish
    dsimp only [TakenBack] at hkept ⊢
    cases hbody : body.jsonable with
    | none =>
      rw [hbody] at hkept
      exact ⟨_, aborted_keeps hs hkept⟩
    | some encoded =>
      rw [hbody] at hkept
      dsimp only at hkept ⊢
      cases hd : durably (Store.completeIdempotentRequest operation key request.fingerprint statusCode encoded
          (recordedHeaders request headers)) disk s with
      | mk r s₁ =>
        rw [hd] at hkept
        rcases complete_record hs hd with ⟨rfl, hrec⟩ | ⟨⟨raised, rfl⟩, hrec⟩
        · exact ⟨_, hrec⟩
        · exact ⟨_, aborted_keeps (hrec.trans hs) fun hok => hkept ⟨rfl, hok⟩⟩

/-- The answer of an execution is that of its end. -/
theorem answer_of_finish {stored : StoredResponse} (hs : recordOf operation key s = some ⟨request.fingerprint, none⟩)
    (h : (finish operation key outcome disk abortDisk request s).1 = .answered stored) :
    outcome.completes ∨ ∃ problem, outcome = .problem problem ∧ stored.statusCode = problem.status := by
  cases outcome with
  | failed => cases h
  | completed statusCode body headers => exact .inl rfl
  | problem problem =>
    cases hf : finish operation key (.problem problem) disk abortDisk request s with
    | mk stage s' =>
      rw [hf] at h
      dsimp only at h
      rcases refusal_record hs hf with ⟨stored', rfl, hstatus, -⟩ | ⟨rfl, -⟩
      · cases h
        exact .inr ⟨problem, rfl, hstatus⟩
      · cases h

/-- The end of the only execution, if there is still a record. -/
theorem settled_of_end {i : ℕ} {stage : Stage} (hi : Orderly operation key t)
    (hget : t.requests[i]? = some request) (hexecuting : request.stage = .executing)
    (hreq : u.requests = t.requests.set i { request with stage := stage }) (hstage : stage ≠ .executing)
    (hrec : recordOf operation key u.store = some record) : Settled operation key record u where
  kept := hrec
  nobody j other hj hother := by
    rw [hreq] at hj
    rcases get_move hget hj with ⟨-, rfl⟩ | ⟨hne, hj⟩
    · exact hstage hother
    · exact hne (hi.alone j i other request hj hget hother hexecuting)

theorem settled_of_finish {i : ℕ} (hi : Orderly operation key t) (hget : t.requests[i]? = some request)
    (hkept : ¬ TakenBack operation key request t.store disk abortDisk outcome)
    (h : t.step operation key o (.finish i outcome disk abortDisk) = some u) :
    ∃ record, Settled operation key record u := by
  obtain ⟨request', hget', h⟩ := Option.bind_eq_some_iff.mp h
  rw [hget] at hget'
  cases hget'
  split at h
  · rename_i hexecuting
    have hreserved := hi.reserved i request hget hexecuting
    obtain ⟨record, hrec⟩ := record_of_finish hreserved hkept
    have hstage : (finish operation key outcome disk abortDisk request t.store).1 ≠ .executing := by
      cases hf : finish operation key outcome disk abortDisk request t.store with
      | mk stage s' =>
        rcases finish_cases hreserved hf with ⟨stored, rfl, -⟩ | ⟨rfl, -⟩ <;> exact Stage.noConfusion
    cases h
    exact ⟨record, settled_of_end hi hget hexecuting rfl hstage hrec⟩
  · cases h

end TakenBack

/-! ### Answers that are not lost -/

/-- The condition on a step: an `execute()` that has run to its end does not have its
reservation taken back; a request that looks for the record does not find the one of
another request; where there is a record, the checkpoint of a reservation commits. -/
def Recordable (operation key : String) (s : Server) : Event → Prop
  | .begin i disk => ∀ request ∈ s.requests[i]?, (recordOf operation key s.store).isSome →
      (durably (Store.beginIdempotentRequest operation key request.fingerprint) disk s.store).1.isOk
  | .look i _ => ∀ request ∈ s.requests[i]?, ∀ record ∈ recordOf operation key s.store,
      record.requestFingerprint = request.fingerprint
  | .finish i outcome disk abortDisk => outcome.completes → ∀ request ∈ s.requests[i]?,
      ¬ TakenBack operation key request s.store disk abortDisk outcome
  | _ => True

instance (operation key : String) (s : Server) (e : Event) : Decidable (Recordable operation key s e) :=
  match e with
  | .begin i _ => inferInstanceAs (Decidable (∀ request ∈ s.requests[i]?, _ → _))
  | .look i _ => inferInstanceAs (Decidable (∀ request ∈ s.requests[i]?, ∀ record ∈ _, _))
  | .finish i .. => inferInstanceAs (Decidable (_ → ∀ request ∈ s.requests[i]?, _))
  | .arrive .. | .cancel _ | .other .. => inferInstanceAs (Decidable True)

/-- `execute()` has run to its end at most once, and a record stays of it. -/
def Once (operation key : String) (t : Server) : Prop :=
  t.completed = 0 ∨ t.completed = 1 ∧ ∃ record, Settled operation key record t

theorem completed_step (he : ∀ i outcome disk abortDisk, e ≠ .finish i outcome disk abortDisk)
    (h : t.step operation key o e = some u) : u.completed = t.completed := by
  cases e with
  | arrive fingerprint correlationId => cases h; rfl
  | finish i outcome disk abortDisk => exact absurd rfl (he i outcome disk abortDisk)
  | other op disk =>
    simp only [Server.step, Option.ite_none_left_eq_some, Option.some.injEq] at h
    rw [← h.2]
  | begin i disk | look i timedOut | cancel i =>
    obtain ⟨request, -, h⟩ := Option.bind_eq_some_iff.mp h
    split at h <;> cases h <;> rfl

/-- An execution that ends leaves a record, and there is no other one before it. -/
theorem once_step (hi : Orderly operation key t) (ht : Once operation key t) (hok : Recordable operation key t e)
    (h : t.step operation key o e = some u) : Once operation key u := by
  have hi' := orderly_step hi h
  have hother : (∀ i outcome disk abortDisk, e ≠ .finish i outcome disk abortDisk) → Once operation key u := by
    intro he
    have hc := completed_step he h
    rcases ht with hzero | ⟨hone, record, hs⟩
    · exact .inl (hc.trans hzero)
    · exact .inr ⟨hc.trans hone, record, settled_step hi hs h⟩
  cases e with
  | finish i outcome disk abortDisk =>
    have hstep := h
    obtain ⟨request, hget, h⟩ := Option.bind_eq_some_iff.mp h
    split at h
    · rename_i hexecuting
      -- a request executes, so none has ended before
      have hzero : t.completed = 0 := by
        rcases ht with hzero | ⟨-, record, hs⟩
        · exact hzero
        · exact absurd hexecuting (hs.nobody i request hget)
      cases h
      by_cases hcompletes : outcome.completes = true
      · refine .inr ⟨?_, settled_of_finish hi hget (hok hcompletes request hget) hstep⟩
        show (if outcome.completes = true then t.completed + 1 else t.completed) = 1
        rw [if_pos hcompletes, hzero]
      · refine .inl ?_
        show (if outcome.completes = true then t.completed + 1 else t.completed) = 0
        rw [if_neg hcompletes, hzero]
    · cases h
  | _ => exact hother (by intros; exact Event.noConfusion)

/-! ### Requests that wait -/

/-- A request that waits has passed the check of its identity. -/
def Named (operation key : String) (t : Server) : Prop :=
  ∀ (i : ℕ) (request : Request), t.requests[i]? = some request → request.stage = .waiting →
    ∃ identity, Store.idempotencyIdentity operation key request.fingerprint = .ok identity

theorem begin_named {disk : Bool} {request : Request} {s : SqliteStore}
    (h : (begin operation key disk request s).1 = .waiting) :
    ∃ identity, Store.idempotencyIdentity operation key request.fingerprint = .ok identity := by
  unfold begin at h
  split at h
  · cases h
  cases hd : durably (Store.beginIdempotentRequest operation key request.fingerprint) disk s with
  | mk r s' =>
    cases r with
    | error raised => rw [hd] at h; cases h
    | ok state =>
      obtain ⟨identity, hid, -⟩ := Act.check_bind_ok (durably_ok hd)
      exact ⟨identity, hid⟩

theorem named_step (hi : Orderly operation key t) (hn : Named operation key t)
    (h : t.step operation key o e = some u) : Named operation key u := by
  refine each_step hn ?_ ?_ ?_ ?_ ?_ h
  · intro i fingerprint correlationId hwaiting
    cases hwaiting
  · intro i request disk _ _ _ hwaiting
    exact begin_named hwaiting
  · intro i request timedOut hget hwaiting _
    exact hn i request hget hwaiting
  · intro i request outcome disk abortDisk _ hget hexecuting hwaiting
    cases hf : finish operation key outcome disk abortDisk request t.store with
    | mk stage s' =>
      rw [hf] at hwaiting
      rcases finish_cases (hi.reserved i request hget hexecuting) hf with ⟨stored, rfl, -⟩ | ⟨rfl, -⟩
      · cases hwaiting
      · cases hwaiting
  · intro i request hget hstage hwaiting
    cases hwaiting

/-! ### The protocol -/

/-- What the requests of one key may rely on in a state of the server, as long as the
steps that follow are `ok`. -/
structure Protocol (operation key : String) (o : SetOrder) (ok : Server → Event → Prop) (t : Server) : Prop where
  /-- At most one request executes. -/
  alone : ∀ (i j : ℕ) (request other : Request), t.requests[i]? = some request → t.requests[j]? = some other →
    request.stage = .executing → other.stage = .executing → i = j
  /-- While there is a record, a request of another fingerprint does not execute, and is
  told of the conflict. -/
  conflict : ∀ (i : ℕ) (request : Request) (record : IdempotencyRecord), t.requests[i]? = some request →
    recordOf operation key t.store = some record → request.fingerprint ≠ record.requestFingerprint →
    request.stage ≠ .executing ∧ ∀ (disk : Bool) (u : Server), ok t (.begin i disk) →
      t.step operation key o (.begin i disk) = some u →
      ∃ detail, u.requests[i]?.map Request.stage = some (.refused (idempotencyKeyReused detail))
  /-- A recorded response answers every request of its fingerprint that begins later. -/
  replay : ∀ (record : IdempotencyRecord) (stored : StoredResponse), recordOf operation key t.store = some record →
    record.response = some stored → ∀ (es : List Event) (u : Server),
    Run (fun s => s.step operation key o) ok t es u → ∀ (i : ℕ) (request : Request),
    u.requests[i]? = some request → request.fingerprint = record.requestFingerprint →
    (∀ earlier, t.requests[i]? = some earlier → earlier.stage = .arrived) →
    request.stage = .arrived ∨ request.response = some (storedHttpResponse stored)
  /-- A request that waits goes on waiting, or hands out the recorded response, or says that
  the request is in progress. -/
  waiter : ∀ (i : ℕ) (request : Request) (timedOut : Bool) (u : Server), t.requests[i]? = some request →
    request.stage = .waiting → ok t (.look i timedOut) → t.step operation key o (.look i timedOut) = some u →
    ∃ next, u.requests[i]? = some next ∧ (next.stage = .waiting ∨
      next.stage = .refused idempotencyRequestInProgress ∨
      ∃ stored, recordOf operation key t.store = some ⟨request.fingerprint, some stored⟩ ∧
        next.response = some (storedHttpResponse stored))
  /-- The effects of an execution happen at most once. -/
  once : t.completed ≤ 1

theorem get_moved {i : ℕ} {request : Request} {next : Stage × SqliteStore} (hget : t.requests[i]? = some request) :
    (t.move i request next).requests[i]? = some { request with stage := next.1 } := by
  show (t.requests.set i _)[i]? = _
  rw [List.getElem?_set, if_pos rfl, if_pos (List.getElem?_eq_some_iff.mp hget).1]

/-- What is known of every state of a history in which no answer has its reservation taken back. -/
structure Reached (operation key : String) (t : Server) : Prop where
  orderly : Orderly operation key t
  once : Once operation key t
  named : Named operation key t

theorem reached_run {store : SqliteStore} (hfree : recordOf operation key store = none) {es : List Event}
    (h : Run (fun s => s.step operation key o) (Recordable operation key) (Server.init store) es t) :
    Reached operation key t := by
  refine h.invariant (I := Reached operation key) ?_ ⟨orderly_init hfree, .inl rfl, ?_⟩
  · intro s e v hs hok hv
    exact ⟨orderly_step hs.orderly hv, once_step hs.orderly hs.once hok hv, named_step hs.orderly hs.named hv⟩
  · intro i request hget
    simp [Server.init] at hget

theorem conflict_of_begin (hi : Orderly operation key t) {i : ℕ} {disk : Bool} {request : Request}
    (hget : t.requests[i]? = some request) (hrec : recordOf operation key t.store = some record)
    (hfp : request.fingerprint ≠ record.requestFingerprint)
    (hok : Recordable operation key t (.begin i disk)) (h : t.step operation key o (.begin i disk) = some u) :
    ∃ detail, u.requests[i]?.map Request.stage = some (.refused (idempotencyKeyReused detail)) := by
  obtain ⟨request', hget', h⟩ := Option.bind_eq_some_iff.mp h
  rw [hget] at hget'
  cases hget'
  split at h
  · cases h
    rw [get_moved hget]
    have hbegin := hok request hget (by rw [hrec]; rfl)
    cases hb : begin operation key disk request t.store with
    | mk stage s' =>
      rcases begin_cases hb with ⟨hinv, -⟩ | ⟨-, -, hnone, -⟩ | ⟨other, hold, -, rfl⟩ | ⟨-, -, raised, hraised⟩
      · exact absurd hinv (hi.visible _ hrec)
      · rw [hrec] at hnone; cases hnone
      · rw [hrec] at hold
        cases hold
        refine ⟨"Use a new Idempotency-Key when the request path, query, or body changes.", ?_⟩
        simp only [Option.map_some, found, ne_eq, Ne.symm hfp, not_false_eq_true, if_true]
      · rw [hraised] at hbegin; cases hbegin
  · cases h

theorem waiter_of_look (hn : Named operation key t) {i : ℕ} {timedOut : Bool} {request : Request}
    (hget : t.requests[i]? = some request) (hwaiting : request.stage = .waiting)
    (hok : Recordable operation key t (.look i timedOut)) (h : t.step operation key o (.look i timedOut) = some u) :
    ∃ next, u.requests[i]? = some next ∧ (next.stage = .waiting ∨
      next.stage = .refused idempotencyRequestInProgress ∨
      ∃ stored, recordOf operation key t.store = some ⟨request.fingerprint, some stored⟩ ∧
        next.response = some (storedHttpResponse stored)) := by
  obtain ⟨request', hget', h⟩ := Option.bind_eq_some_iff.mp h
  rw [hget] at hget'
  cases hget'
  split at h
  · cases h
    refine ⟨_, get_moved hget, ?_⟩
    rcases look_cases operation key timedOut request t.store with
      ⟨⟨fault, hfault⟩, -⟩ | hl | hl | ⟨record, hrec, hne, -⟩ | ⟨stored, hrec, hl⟩
    · obtain ⟨identity, hid⟩ := hn i request hget hwaiting
      rw [hid] at hfault
      cases hfault
    · exact .inl hl
    · exact .inr (.inl hl)
    · exact absurd (hok request hget record hrec) hne
    · refine .inr (.inr ⟨stored, hrec, ?_⟩)
      simp only [Request.response, hl]
  · cases h

theorem replayed {stored : StoredResponse} (hi : Orderly operation key t)
    (hrec : recordOf operation key t.store = some record) (hresp : record.response = some stored)
    {es : List Event} (h : Run (fun s => s.step operation key o) (Recordable operation key) t es u) {i : ℕ}
    {request : Request} (hget : u.requests[i]? = some request)
    (hfp : request.fingerprint = record.requestFingerprint)
    (hlate : ∀ earlier, t.requests[i]? = some earlier → earlier.stage = .arrived) :
    request.stage = .arrived ∨ request.response = some (storedHttpResponse stored) := by
  let late (j : ℕ) : Prop := ∀ earlier, t.requests[j]? = some earlier → earlier.stage = .arrived
  have hend : Followed record False late u := by
    refine (h.invariant (I := fun s => Orderly operation key s ∧ Settled operation key record s ∧
      Followed record False late s) ?_ ⟨hi, settled_of_response hi hrec hresp, ?_⟩).2.2
    · rintro s e v ⟨hi, hs, hf⟩ hok hv
      refine ⟨orderly_step hi hv, settled_step hi hs hv, followed_step hi hs hf ?_ hv⟩
      rintro j disk other rfl hother
      exact .inr (hok other hother (by rw [hs.kept]; rfl))
    · intro j other hj hother _
      rw [hj other hother]
      exact .arrived
  have hfollows := hend i request hlate hget hfp
  unfold Request.response
  generalize request.stage = stage at hfollows ⊢
  cases hfollows with
  | arrived => exact .inl rfl
  | answered h =>
    rw [hresp] at h
    cases h
    exact .inr rfl
  | waiting hnone | inProgress hnone | cancelled hnone => rw [hresp] at hnone; cases hnone
  | raised h =>
    rcases h with h | hnone
    · exact h.elim
    · rw [hresp] at hnone; cases hnone

/-- The requests of a key follow the protocol as long as no answer has its reservation taken back. -/
theorem idempotency_protocol {store : SqliteStore} (hfree : recordOf operation key store = none) {es : List Event}
    (h : Run (fun s => s.step operation key o) (Recordable operation key) (Server.init store) es t) :
    Protocol operation key o (Recordable operation key) t := by
  have ht := reached_run hfree h
  constructor
  · exact ht.orderly.alone
  · intro i request record hget hrec hfp
    constructor
    · intro hexecuting
      have := ht.orderly.reserved i request hget hexecuting
      rw [hrec] at this
      cases this
      exact hfp rfl
    · intro disk u hok hu
      exact conflict_of_begin ht.orderly hget hrec hfp hok hu
  · intro record stored hrec hresp es u hrun i request hget hfp hlate
    exact replayed ht.orderly hrec hresp hrun hget hfp hlate
  · intro i request timedOut u hget hwaiting hok hu
    exact waiter_of_look ht.named hget hwaiting hok hu
  · rcases ht.once with hzero | ⟨hone, -⟩ <;> omega

/-- A request reserves the key, executes, and its answer is recorded; the second one gets
it. -/
def replaying : List Event :=
  [.arrive "f" "corr_1", .begin 0 true, .arrive "f" "corr_2", .begin 1 true, .look 1 false,
    .finish 0 (.completed 201 (.dict []) []) true true, .look 1 false]

/-- The answer cannot be recorded, so the reservation is taken back, and the client tries
again. -/
def forgetting : List Event :=
  [.arrive "f" "corr_1", .begin 0 true, .finish 0 (.completed 201 (.dict []) []) false true,
    .arrive "f" "corr_2", .begin 1 true, .finish 1 (.completed 201 (.dict []) []) true true]

theorem idempotency_protocol_replaying :
    ∃ t, exec (fun s => s.step "tenant:createRun" "key" Store.inOrder) (Recordable "tenant:createRun" "key")
        (Server.init .init) replaying = some t ∧
      Protocol "tenant:createRun" "key" Store.inOrder (Recordable "tenant:createRun" "key") t := by
  have hrun : (exec (fun s => s.step "tenant:createRun" "key" Store.inOrder) (Recordable "tenant:createRun" "key")
      (Server.init .init) replaying).isSome := by decide +kernel
  obtain ⟨t, ht⟩ := Option.isSome_iff_exists.mp hrun
  exact ⟨t, ht, idempotency_protocol rfl (run_of_exec ht)⟩

/-- Both requests of one key have executed their operation. -/
theorem effects_applied_twice :
    ¬ ∀ (operation key : String) (o : SetOrder) (store : SqliteStore) (es : List Event) (t : Server),
      recordOf operation key store = none →
      Run (fun s => s.step operation key o) Free (Server.init store) es t → Protocol operation key o Free t := by
  intro hall
  have hrun : (exec (fun s => s.step "tenant:createRun" "key" Store.inOrder) Free (Server.init .init)
      forgetting).map Server.completed = some 2 := by decide +kernel
  obtain ⟨t, ht, htwo⟩ := Option.map_eq_some_iff.mp hrun
  have hone := (hall "tenant:createRun" "key" Store.inOrder .init forgetting t rfl (run_of_exec ht)).once
  omega

end AutomlApi.Requests
