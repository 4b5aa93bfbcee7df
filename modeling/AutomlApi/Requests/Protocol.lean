import AutomlApi.Requests.Reserving

/-! At most one of the requests with a key holds the reservation, the others are
answered from the record, and a recorded answer stays. -/

namespace AutomlApi.Requests

open Runs
open Store (IdempotencyRecord Op Raised SetOrder SqliteStore StoredResponse Value)

variable {operation key : String}

/-! ### Steps of one request -/

/-- What a request finds that comes after the reservation. -/
def found (record : IdempotencyRecord) (fingerprint : String) : Stage :=
  if record.requestFingerprint ≠ fingerprint then
    .refused (idempotencyKeyReused "Use a new Idempotency-Key when the request path, query, or body changes.")
  else
    match record.response with
    | none => .waiting
    | some stored => .answered stored

theorem begin_cases {disk : Bool} {request : Request} {s s' : SqliteStore} {stage : Stage}
    (h : begin operation key disk request s = (stage, s')) :
    (invisible key ∧ stage = .refused invalidIdempotencyKey ∧ s' = s) ∨
      (¬ invisible key ∧ stage = .executing ∧ recordOf operation key s = none ∧
        recordOf operation key s' = some ⟨request.fingerprint, none⟩) ∨
      (∃ record, recordOf operation key s = some record ∧ recordOf operation key s' = some record ∧
        stage = found record request.fingerprint) ∨
      (stage = .raised ∧ recordOf operation key s' = recordOf operation key s ∧
        ∃ raised, (durably (Store.beginIdempotentRequest operation key request.fingerprint) disk s).1
          = .error raised) := by
  unfold begin at h
  split at h
  · rename_i hkey
    cases h
    exact .inl ⟨hkey, rfl, rfl⟩
  rename_i hkey
  right
  cases hd : durably (Store.beginIdempotentRequest operation key request.fingerprint) disk s with
  | mk r s₁ =>
    rw [hd] at h
    rcases begin_record hd with ⟨rfl, hnone, hrec⟩ | ⟨record, hold, hrec, rfl⟩ | ⟨⟨raised, rfl⟩, hrec⟩
    · cases h
      exact .inl ⟨hkey, rfl, hnone, hrec⟩
    · refine .inr (.inl ⟨record, hold, ?_⟩)
      unfold Store.idempotencyDecision at h
      unfold found
      by_cases hfp : record.requestFingerprint = request.fingerprint
      · simp only [hfp, ne_eq, not_true_eq_false, if_false] at h ⊢
        cases hresp : record.response with
        | none =>
          simp only [hresp, Option.isNone_none, if_true] at h
          cases h
          exact ⟨hrec, rfl⟩
        | some stored =>
          simp only [hresp, Option.isNone_some, handedOut] at h
          cases h
          refine ⟨hrec, ?_⟩
          rw [hrec, Option.bind_some, hresp]
          rfl
      · simp only [ne_eq, hfp, not_false_eq_true, if_true] at h ⊢
        cases h
        exact ⟨hrec, rfl⟩
    · cases h
      exact .inr (.inr ⟨rfl, hrec, raised, rfl⟩)

theorem look_cases (operation key : String) (timedOut : Bool) (request : Request) (s : SqliteStore) :
    let stage := look operation key timedOut request s
    ((∃ fault, Store.idempotencyIdentity operation key request.fingerprint = .error fault) ∧ stage = .raised) ∨
      stage = .waiting ∨ stage = .refused idempotencyRequestInProgress ∨
      (∃ record, recordOf operation key s = some record ∧ record.requestFingerprint ≠ request.fingerprint ∧
        ∃ detail, stage = .refused (idempotencyKeyReused detail)) ∨
      (∃ stored, recordOf operation key s = some ⟨request.fingerprint, some stored⟩ ∧ stage = .answered stored) := by
  unfold look getIdempotency
  cases hid : Store.idempotencyIdentity operation key request.fingerprint with
  | error fault => exact .inl ⟨⟨fault, rfl⟩, rfl⟩
  | ok identity =>
    right
    cases identity_eq_ok hid
    simp only [Except.map, handedOut]
    have hrec : recordOf operation key s = s.memory.idempotency.get (operation, key) := rfl
    rw [hrec]
    cases s.memory.idempotency.get (operation, key) with
    | none => exact .inr (.inl rfl)
    | some record =>
      obtain ⟨fingerprint, response⟩ := record
      simp only [Option.map_some, Option.bind_some]
      unfold Store.idempotencyDecision
      by_cases hfp : fingerprint = request.fingerprint
      · subst hfp
        cases response with
        | none =>
          cases timedOut with
          | true => exact .inr (.inl (by simp [concluded]))
          | false => exact .inl (by simp)
        | some stored => exact .inr (.inr (.inr ⟨stored, rfl, by simp [concluded]⟩))
      · refine .inr (.inr (.inl ⟨_, rfl, hfp, "Use a new Idempotency-Key when the request changes.", ?_⟩))
        simp [hfp, concluded]

/-- How the request that has the reservation ends: its answer is recorded, or the
reservation is gone, or it stays. -/
theorem finish_cases {outcome : Outcome} {disk abortDisk : Bool} {request : Request} {s s' : SqliteStore}
    {stage : Stage} (hs : recordOf operation key s = some ⟨request.fingerprint, none⟩)
    (h : finish operation key outcome disk abortDisk request s = (stage, s')) :
    (∃ stored, stage = .answered stored ∧ recordOf operation key s' = some ⟨request.fingerprint, some stored⟩) ∨
      (stage = .raised ∧
        (recordOf operation key s' = none ∨ recordOf operation key s' = some ⟨request.fingerprint, none⟩)) := by
  have habort : ∀ {disk : Bool} {s s' : SqliteStore} {stage : Stage},
      recordOf operation key s = some ⟨request.fingerprint, none⟩ →
      aborted operation key disk request s = (stage, s') → stage = .raised ∧
        (recordOf operation key s' = none ∨ recordOf operation key s' = some ⟨request.fingerprint, none⟩) := by
    intro disk s s' stage hs h
    cases h
    refine ⟨rfl, ?_⟩
    rcases abort_record hs rfl with ⟨-, hrec⟩ | ⟨-, hrec⟩
    · exact .inl hrec
    · exact .inr (hrec.trans hs)
  unfold finish at h
  cases outcome with
  | failed => exact .inr (habort hs h)
  | completed statusCode body headers =>
    dsimp only at h
    cases hbody : body.jsonable with
    | none => rw [hbody] at h; exact .inr (habort hs h)
    | some encoded =>
      rw [hbody] at h
      dsimp only at h
      cases hd : durably (Store.completeIdempotentRequest operation key request.fingerprint statusCode encoded
          (recordedHeaders request headers)) disk s with
      | mk r s₁ =>
        rw [hd] at h
        rcases complete_record hs hd with ⟨rfl, hrec⟩ | ⟨⟨raised, rfl⟩, hrec⟩
        · cases h
          exact .inl ⟨_, rfl, hrec⟩
        · exact .inr (habort (hrec.trans hs) h)
  | problem problem =>
    dsimp only at h
    cases hd : durably (Store.completeIdempotentRequest operation key request.fingerprint problem.status
        (problem.body request.correlationId) (problemHeaders request problem.headers)) disk s with
    | mk r s₁ =>
      rw [hd] at h
      rcases complete_record hs hd with ⟨rfl, hrec⟩ | ⟨⟨raised, rfl⟩, hrec⟩
      · cases h
        exact .inl ⟨_, rfl, hrec⟩
      · cases h
        exact .inr ⟨rfl, .inr (hrec.trans hs)⟩

/-! ### Steps of the server -/

/-- What a step does to the stage of one request and to the record. -/
inductive Moves (key : String) (request : Request) :
    Option IdempotencyRecord → Stage → Option IdempotencyRecord → Prop
  | reserve (hkey : ¬ invisible key) (harrived : request.stage = .arrived) :
      Moves key request none .executing (some ⟨request.fingerprint, none⟩)
  | keep {record : Option IdempotencyRecord} {stage : Stage} (hrequest : request.stage ≠ .executing)
      (hstage : stage ≠ .executing) : Moves key request record stage record
  | record (stored : StoredResponse) (hexecuting : request.stage = .executing) :
      Moves key request (some ⟨request.fingerprint, none⟩) (.answered stored) (some ⟨request.fingerprint, some stored⟩)
  | abort {record : Option IdempotencyRecord} (hexecuting : request.stage = .executing) :
      Moves key request record .raised none
  | leave {record : Option IdempotencyRecord} {stage : Stage} (hexecuting : request.stage = .executing)
      (hstage : stage ≠ .executing) : Moves key request record stage record

/-- The invariant: one request at most executes, and the record is its reservation. -/
structure Orderly (operation key : String) (t : Server) : Prop where
  alone : ∀ (i j : ℕ) (request other : Request), t.requests[i]? = some request → t.requests[j]? = some other →
    request.stage = .executing → other.stage = .executing → i = j
  reserved : ∀ (i : ℕ) (request : Request), t.requests[i]? = some request → request.stage = .executing →
    recordOf operation key t.store = some ⟨request.fingerprint, none⟩
  visible : ∀ record, recordOf operation key t.store = some record → ¬ invisible key

variable {o : SetOrder} {t u : Server} {e : Event}

theorem found_ne (record : IdempotencyRecord) (fingerprint : String) : found record fingerprint ≠ .executing := by
  unfold found
  split
  · exact Stage.noConfusion
  · split <;> exact Stage.noConfusion

theorem moves_begin {disk : Bool} {request : Request} (s : SqliteStore) (harrived : request.stage = .arrived) :
    Moves key request (recordOf operation key s) (begin operation key disk request s).1
      (recordOf operation key (begin operation key disk request s).2) := by
  have hne : request.stage ≠ .executing := by rw [harrived]; exact Stage.noConfusion
  cases hb : begin operation key disk request s with
  | mk stage s' =>
    rcases begin_cases hb with
      ⟨-, rfl, rfl⟩ | ⟨hkey, rfl, hnone, hrec⟩ | ⟨record, hold, hrec, rfl⟩ | ⟨rfl, hrec, -⟩
    · exact .keep hne Stage.noConfusion
    · rw [hnone, hrec]; exact .reserve hkey harrived
    · rw [hold, hrec]; exact .keep hne (found_ne _ _)
    · rw [hrec]; exact .keep hne Stage.noConfusion

theorem moves_look {timedOut : Bool} {request : Request} (s : SqliteStore) (hwaiting : request.stage = .waiting) :
    Moves key request (recordOf operation key s) (look operation key timedOut request s) (recordOf operation key s) := by
  refine .keep (by rw [hwaiting]; exact Stage.noConfusion) ?_
  rcases look_cases operation key timedOut request s with
    ⟨-, hl⟩ | hl | hl | ⟨_, -, -, _, hl⟩ | ⟨_, -, hl⟩ <;> rw [hl] <;> exact Stage.noConfusion

theorem moves_finish (outcome : Outcome) (disk abortDisk : Bool) {request : Request} {s : SqliteStore}
    (hs : recordOf operation key s = some ⟨request.fingerprint, none⟩) (hexecuting : request.stage = .executing) :
    Moves key request (recordOf operation key s) (finish operation key outcome disk abortDisk request s).1
      (recordOf operation key (finish operation key outcome disk abortDisk request s).2) := by
  cases hf : finish operation key outcome disk abortDisk request s with
  | mk stage s' =>
    rcases finish_cases hs hf with ⟨stored, rfl, hrec⟩ | ⟨rfl, hrec | hrec⟩
    · rw [hs, hrec]; exact .record stored hexecuting
    · rw [hrec]; exact .abort hexecuting
    · rw [hs, hrec]; exact .leave hexecuting Stage.noConfusion

/-- Every step: a request comes, or one request moves, or another call of the store leaves
the record alone. -/
theorem step_cases (hi : Orderly operation key t) (h : t.step operation key o e = some u) :
    (∃ request, request.stage = .arrived ∧ u = { t with requests := t.requests ++ [request] }) ∨
      (∃ store, recordOf operation key store = recordOf operation key t.store ∧ u = { t with store := store }) ∨
      ∃ i request stage, t.requests[i]? = some request ∧
        u.requests = t.requests.set i { request with stage := stage } ∧
        Moves key request (recordOf operation key t.store) stage (recordOf operation key u.store) := by
  cases e with
  | arrive fingerprint correlationId => cases h; exact .inl ⟨_, rfl, rfl⟩
  | other op disk =>
    simp only [Server.step, Option.ite_none_left_eq_some, Option.some.injEq, Bool.not_eq_true] at h
    obtain ⟨hw, rfl⟩ := h
    exact .inr (.inl ⟨_, recordOf_apply o hw disk t.store, rfl⟩)
  | begin i disk =>
    obtain ⟨request, hget, h⟩ := Option.bind_eq_some_iff.mp h
    split at h
    · rename_i harrived
      cases h
      exact .inr (.inr ⟨i, request, _, hget, rfl, moves_begin t.store harrived⟩)
    · cases h
  | look i timedOut =>
    obtain ⟨request, hget, h⟩ := Option.bind_eq_some_iff.mp h
    split at h
    · rename_i hwaiting
      cases h
      exact .inr (.inr ⟨i, request, _, hget, rfl, moves_look t.store hwaiting⟩)
    · cases h
  | finish i outcome disk abortDisk =>
    obtain ⟨request, hget, h⟩ := Option.bind_eq_some_iff.mp h
    split at h
    · rename_i hexecuting
      have hmoves := moves_finish outcome disk abortDisk (hi.reserved i request hget hexecuting) hexecuting
      cases h
      exact .inr (.inr ⟨i, request, _, hget, rfl, hmoves⟩)
    · cases h
  | cancel i =>
    obtain ⟨request, hget, h⟩ := Option.bind_eq_some_iff.mp h
    split at h
    · rename_i hwaiting
      cases h
      refine .inr (.inr ⟨i, request, _, hget, rfl, .keep ?_ Stage.noConfusion⟩)
      rw [hwaiting]; exact Stage.noConfusion
    · rename_i hexecuting
      cases h
      exact .inr (.inr ⟨i, request, _, hget, rfl, .leave hexecuting Stage.noConfusion⟩)
    · cases h

/-! ### The reservation -/

theorem orderly_init {store : SqliteStore} (h : recordOf operation key store = none) :
    Orderly operation key (Server.init store) where
  alone i j request other hi := by simp [Server.init] at hi
  reserved i request hi := by simp [Server.init] at hi
  visible record hr := by rw [show (Server.init store).store = store from rfl, h] at hr; cases hr

/-- A request of the list that came or moved. -/
theorem get_move {requests : List Request} {i j : ℕ} {request moved r : Request}
    (hget : requests[i]? = some request) (h : (requests.set i moved)[j]? = some r) :
    j = i ∧ r = moved ∨ j ≠ i ∧ requests[j]? = some r := by
  rw [List.getElem?_set] at h
  by_cases hij : i = j
  · subst hij
    have hlt : i < requests.length := (List.getElem?_eq_some_iff.mp hget).1
    rw [if_pos rfl, if_pos hlt] at h
    exact .inl ⟨rfl, (Option.some.inj h).symm⟩
  · rw [if_neg hij] at h
    exact .inr ⟨Ne.symm hij, h⟩

theorem get_came {requests : List Request} {request r : Request} {j : ℕ}
    (h : (requests ++ [request])[j]? = some r) : requests[j]? = some r ∨ r = request := by
  rcases lt_or_ge j requests.length with hj | hj
  · rw [List.getElem?_append_left hj] at h
    exact .inl h
  · rw [List.getElem?_append_right hj] at h
    right
    cases hd : j - requests.length with
    | zero => rw [hd] at h; exact (Option.some.inj h).symm
    | succ n => rw [hd] at h; cases h

theorem orderly_move {i : ℕ} {request : Request} {stage : Stage} (hi : Orderly operation key t)
    (hget : t.requests[i]? = some request) (hreq : u.requests = t.requests.set i { request with stage := stage })
    (hm : Moves key request (recordOf operation key t.store) stage (recordOf operation key u.store)) :
    Orderly operation key u := by
  -- once the request that executes has ended, none does
  have hended : request.stage = .executing → stage ≠ .executing → ∀ (j : ℕ) (r : Request),
      u.requests[j]? = some r → r.stage ≠ .executing := by
    intro hexecuting hstage j r hr
    rw [hreq] at hr
    rcases get_move hget hr with ⟨-, rfl⟩ | ⟨hne, hr⟩
    · exact hstage
    · intro hex
      exact hne (hi.alone j i r request hr hget hex hexecuting)
  generalize hold : recordOf operation key t.store = old at hm
  generalize hnew : recordOf operation key u.store = new at hm
  cases hm with
  | reserve hkey harrived =>
    have honly : ∀ {j : ℕ} {r : Request}, u.requests[j]? = some r → r.stage = .executing →
        j = i ∧ r.fingerprint = request.fingerprint := by
      intro j r hr hex
      rw [hreq] at hr
      rcases get_move hget hr with ⟨rfl, rfl⟩ | ⟨-, hr⟩
      · exact ⟨rfl, rfl⟩
      · have := hi.reserved j r hr hex
        rw [hold] at this
        cases this
    refine ⟨?_, ?_, ?_⟩
    · intro j k r r' hr hr' hex hex'
      rw [(honly hr hex).1, (honly hr' hex').1]
    · intro j r hr hex
      rw [hnew, (honly hr hex).2]
    · intro record _
      exact hkey
  | keep hrequest hstage =>
    have hback : ∀ {j : ℕ} {r : Request}, u.requests[j]? = some r → r.stage = .executing →
        t.requests[j]? = some r := by
      intro j r hr hex
      rw [hreq] at hr
      rcases get_move hget hr with ⟨-, rfl⟩ | ⟨-, hr⟩
      · exact absurd hex hstage
      · exact hr
    refine ⟨?_, ?_, ?_⟩
    · intro j k r r' hr hr' hex hex'
      exact hi.alone j k r r' (hback hr hex) (hback hr' hex') hex hex'
    · intro j r hr hex
      rw [hnew, ← hold]
      exact hi.reserved j r (hback hr hex) hex
    · intro record hr
      rw [hnew, ← hold] at hr
      exact hi.visible record hr
  | record stored hexecuting =>
    have hnone := hended hexecuting Stage.noConfusion
    refine ⟨?_, ?_, ?_⟩
    · intro j k r r' hr _ hex
      exact absurd hex (hnone j r hr)
    · intro j r hr hex
      exact absurd hex (hnone j r hr)
    · intro record _
      exact hi.visible _ hold
  | abort hexecuting =>
    have hnone := hended hexecuting Stage.noConfusion
    refine ⟨?_, ?_, ?_⟩
    · intro j k r r' hr _ hex
      exact absurd hex (hnone j r hr)
    · intro j r hr hex
      exact absurd hex (hnone j r hr)
    · intro record hr
      rw [hnew] at hr
      cases hr
  | leave hexecuting hstage =>
    have hnone := hended hexecuting hstage
    refine ⟨?_, ?_, ?_⟩
    · intro j k r r' hr _ hex
      exact absurd hex (hnone j r hr)
    · intro j r hr hex
      exact absurd hex (hnone j r hr)
    · intro record hr
      rw [hnew, ← hold] at hr
      exact hi.visible record hr

/-- A request moves into execution by a reservation only, and out of it once. -/
theorem orderly_step (hi : Orderly operation key t) (h : t.step operation key o e = some u) :
    Orderly operation key u := by
  rcases step_cases hi h with ⟨request, harrived, rfl⟩ | ⟨store, hrec, rfl⟩ | ⟨i, request, stage, hget, hreq, hm⟩
  · have hold : ∀ {j : ℕ} {r : Request}, (t.requests ++ [request])[j]? = some r → r.stage = .executing →
        t.requests[j]? = some r := by
      intro j r hr hex
      rcases get_came hr with hr | rfl
      · exact hr
      · rw [harrived] at hex; cases hex
    exact ⟨fun j k r r' hr hr' hex hex' => hi.alone j k r r' (hold hr hex) (hold hr' hex') hex hex',
      fun j r hr hex => hi.reserved j r (hold hr hex) hex, hi.visible⟩
  · exact ⟨hi.alone, fun j r hr hex => hrec.trans (hi.reserved j r hr hex),
      fun record hr => hi.visible record (hrec ▸ hr)⟩
  · exact orderly_move hi hget hreq hm

end AutomlApi.Requests
