import AutomlApi.Requests.Replaying

/-! The reservations of a key over cancellations and over the lives of the process,
which starts again from its checkpoint. A reservation is tended as long as the request
that made it executes. -/

namespace AutomlApi.Requests

open Runs
open Store (Fields IdempotencyRecord Memory Op Raised SetOrder SqliteStore StoredResponse StoreM Value)

/-! ### Lives of the process -/

/-- The process serves, or it stops and starts again. -/
inductive LifeEvent where
  | serve (e : Event)
  | restart

/-- No client hears of a request whose process has stopped. -/
def Request.lost (request : Request) : Request :=
  match request.stage with
  | .arrived | .waiting | .executing => { request with stage := .cancelled }
  | _ => request

def Server.restarted (s : Server) : Server :=
  { s with
    store := { s.store with memory := Store.restore s.store.checkpoint }
    requests := s.requests.map Request.lost }

def Server.live (operation key : String) (o : SetOrder) (s : Server) : LifeEvent → Option Server
  | .serve e => s.step operation key o e
  | .restart => some s.restarted

/-! ### The checkpoint of the record -/

/-- The fingerprint of the record of a key, and whether it has a response. -/
def sketch (operation key : String) (memory : Memory) : Option (String × Bool) :=
  (memory.idempotency.get (operation, key)).map fun record => (record.requestFingerprint, record.response.isSome)

/-- The checkpoint and the memory agree on the record. -/
def Saved (operation key : String) (s : SqliteStore) : Prop :=
  sketch operation key s.checkpoint = sketch operation key s.memory

variable {operation key fingerprint : String} {o : SetOrder} {disk abortDisk : Bool} {s s' : SqliteStore}

theorem sketch_eq (operation key : String) (s : SqliteStore) :
    sketch operation key s.memory =
      (recordOf operation key s).map fun record => (record.requestFingerprint, record.response.isSome) := rfl

theorem encodeRecord_sketch {record stored : IdempotencyRecord} (h : Store.encodeRecord record = some stored) :
    stored.requestFingerprint = record.requestFingerprint ∧ stored.response.isSome = record.response.isSome := by
  unfold Store.encodeRecord at h
  cases hresp : record.response with
  | none =>
    rw [hresp] at h
    cases h
    exact ⟨rfl, by rw [hresp]⟩
  | some response =>
    rw [hresp] at h
    obtain ⟨body, -, h⟩ := Option.bind_eq_some_iff.mp h
    obtain ⟨headers, -, h⟩ := Option.bind_eq_some_iff.mp h
    cases h
    exact ⟨rfl, rfl⟩

theorem sketch_serialise {memory snapshot : Memory} (h : Store.serialise memory = some snapshot) :
    sketch operation key snapshot = sketch operation key memory := by
  have hget := Dict.get_traverse (Store.serialise_eq_some h).2.2 (operation, key)
  unfold sketch
  cases hm : memory.idempotency.get (operation, key) with
  | none =>
    rw [hm] at hget
    rw [Option.map_eq_none_iff.mp hget.symm]
  | some record =>
    rw [hm, Option.map_some] at hget
    obtain ⟨stored, hstored, hencoded⟩ := Option.map_eq_some_iff.mp hget.symm
    obtain ⟨hfingerprint, hresponse⟩ := encodeRecord_sketch hencoded.symm
    rw [hstored, Option.map_some, Option.map_some, hfingerprint, hresponse]

/-- A mutation that returns has written the memory to the checkpoint, and one that fails
has left the checkpoint alone. -/
theorem durableMutation_checkpoint (m : StoreM Unit) (disk : Bool) (s : SqliteStore) :
    let r := Store.durableMutation m disk s
    (r.1 = .ok () → Store.serialise r.2.memory = some r.2.checkpoint) ∧
      (∀ raised, r.1 = .error raised → r.2.checkpoint = s.checkpoint) := by
  unfold Store.durableMutation
  cases m s.memory with
  | mk r t =>
    cases r with
    | error fault => exact ⟨nofun, fun _ _ => rfl⟩
    | ok u =>
      cases hj : Store.serialise t with
      | none => exact ⟨fun h => by simp [hj] at h, fun _ _ => by simp [hj]⟩
      | some snapshot =>
        cases disk with
        | true => exact ⟨fun _ => by simp [hj], fun _ h => by simp [hj] at h⟩
        | false => exact ⟨fun h => by simp [hj] at h, fun _ _ => by simp [hj]⟩

theorem saved_of_call {r : Except Raised Unit} (hs : Saved operation key s)
    (hok : r = .ok () → Store.serialise s'.memory = some s'.checkpoint)
    (herror : ∀ raised, r = .error raised → s'.checkpoint = s.checkpoint ∧
      recordOf operation key s' = recordOf operation key s) : Saved operation key s' := by
  unfold Saved at hs ⊢
  cases r with
  | ok u => exact sketch_serialise (hok rfl)
  | error raised =>
    obtain ⟨hcheckpoint, hrecord⟩ := herror raised rfl
    rw [hcheckpoint, hs, sketch_eq, sketch_eq, hrecord]

/-- A durable call keeps the agreement if it keeps the record where it fails. -/
theorem saved_durably {α : Type} {m : StoreM α} {r : Except Raised α} (hs : Saved operation key s)
    (h : durably m disk s = (r, s'))
    (herror : ∀ raised, r = .error raised → recordOf operation key s' = recordOf operation key s) :
    Saved operation key s' := by
  have hcheckpoint := durableMutation_checkpoint (Op.method.void m) disk s
  have hmemory := (durableMutation_memory (Op.method.void m) disk s).1
  unfold durably at h
  cases hv : Store.durableMutation (Op.method.void m) disk s with
  | mk r' t' =>
    rw [hv] at hcheckpoint hmemory h
    cases hm : (m s.memory).1 with
    | ok a =>
      rw [hm] at h
      cases r' with
      | ok u => cases h; exact sketch_serialise (hcheckpoint.1 rfl)
      | error raised =>
        cases h
        exact saved_of_call (r := .error raised) hs nofun
          fun _ _ => ⟨hcheckpoint.2 raised rfl, herror raised rfl⟩
    | error fault =>
      rw [hm] at h
      obtain ⟨rfl, rfl⟩ : r = .error (.store fault) ∧ s' = t' := by
        cases r' <;> simp at h <;> exact ⟨h.1.symm, h.2.symm⟩
      cases r' with
      | ok u =>
        have := (hmemory rfl).1
        rw [void_eq, hm] at this
        cases this
      | error raised =>
        exact saved_of_call (r := .error raised) hs nofun
          fun _ _ => ⟨hcheckpoint.2 raised rfl, herror _ rfl⟩

theorem saved_apply (hs : Saved operation key s) {op : Op} (h : writesRecord operation key op = false) (disk : Bool) :
    Saved operation key (op.apply o disk s).2 := by
  have hrecord := recordOf_apply o h disk s
  have hplain : op.apply o disk s = Store.durableMutation (op.method o) disk s →
      Saved operation key (op.apply o disk s).2 := by
    intro he
    have hcheckpoint := durableMutation_checkpoint (op.method o) disk s
    rw [← he] at hcheckpoint
    exact saved_of_call (r := (op.apply o disk s).1) hs hcheckpoint.1
      fun raised hr => ⟨hcheckpoint.2 raised hr, hrecord⟩
  cases op with
  | reset => cases h
  | job r op =>
    unfold Op.apply
    dsimp only
    split
    · split <;> exact hs
    · exact hs
  | _ => exact hplain rfl

/-! ### The steps of one request -/

section Request

variable {request : Request}

theorem saved_begin (hs : Saved operation key s) : Saved operation key (begin operation key disk request s).2 := by
  unfold begin
  split
  · exact hs
  cases hd : durably (Store.beginIdempotentRequest operation key request.fingerprint) disk s with
  | mk r s' =>
    have hs' := saved_durably hs hd fun raised hr => by
      rcases begin_record hd with ⟨hok, -⟩ | ⟨_, -, -, hok⟩ | ⟨-, hrec⟩
      · rw [hr] at hok; cases hok
      · rw [hr] at hok; cases hok
      · exact hrec
    cases r with
    | error raised => exact hs'
    | ok state => cases state <;> exact hs'

theorem saved_aborted (hreserved : recordOf operation key s = some ⟨request.fingerprint, none⟩)
    (hs : Saved operation key s) : Saved operation key (aborted operation key disk request s).2 := by
  refine saved_durably hs rfl fun raised hr => ?_
  rcases abort_record hreserved rfl with ⟨⟨done, hok⟩, -⟩ | ⟨-, hrec⟩
  · rw [hr] at hok; cases hok
  · exact hrec

/-- The recording of an answer or of a problem keeps the agreement, and the record where
it fails. -/
theorem saved_complete {statusCode : ℤ} {body : Value} {headers : Fields} {r : Except Raised StoredResponse}
    (hreserved : recordOf operation key s = some ⟨request.fingerprint, none⟩) (hs : Saved operation key s)
    (h : durably (Store.completeIdempotentRequest operation key request.fingerprint statusCode body headers) disk s
      = (r, s')) :
    Saved operation key s' ∧ (∀ raised, r = .error raised → recordOf operation key s' = recordOf operation key s) := by
  have hkeep : ∀ raised, r = .error raised → recordOf operation key s' = recordOf operation key s := by
    intro raised hr
    rcases complete_record hreserved h with ⟨hok, -⟩ | ⟨-, hrec⟩
    · rw [hr] at hok; cases hok
    · exact hrec
  exact ⟨saved_durably hs h hkeep, hkeep⟩

theorem saved_finish (outcome : Outcome) (hreserved : recordOf operation key s = some ⟨request.fingerprint, none⟩)
    (hs : Saved operation key s) : Saved operation key (finish operation key outcome disk abortDisk request s).2 := by
  unfold finish
  cases outcome with
  | failed => exact saved_aborted hreserved hs
  | problem problem =>
    dsimp only
    cases hd : durably (Store.completeIdempotentRequest operation key request.fingerprint problem.status
        (problem.body request.correlationId) (problemHeaders request problem.headers)) disk s with
    | mk r s₁ =>
      obtain ⟨hs₁, -⟩ := saved_complete hreserved hs hd
      cases r <;> exact hs₁
  | completed statusCode body headers =>
    dsimp only
    cases body.jsonable with
    | none => exact saved_aborted hreserved hs
    | some encoded =>
      dsimp only
      cases hd : durably (Store.completeIdempotentRequest operation key request.fingerprint statusCode encoded
          (recordedHeaders request headers)) disk s with
      | mk r s₁ =>
        obtain ⟨hs₁, hkeep⟩ := saved_complete hreserved hs hd
        cases r with
        | ok stored => exact hs₁
        | error raised => exact saved_aborted ((hkeep raised rfl).trans hreserved) hs₁

/-- The end of an execution gets into the store: the answer or the problem is recorded, or
the reservation is taken back. -/
def Closes (operation key : String) (request : Request) (s : SqliteStore) (disk abortDisk : Bool) :
    Outcome → Prop
  | .completed statusCode body headers =>
    match body.jsonable with
    | none => (durably (Store.abortIdempotentRequest operation key request.fingerprint) abortDisk s).1.isOk
    | some encoded =>
      let recorded := durably (Store.completeIdempotentRequest operation key request.fingerprint statusCode encoded
        (recordedHeaders request headers)) disk s
      recorded.1.isOk ∨
        (durably (Store.abortIdempotentRequest operation key request.fingerprint) abortDisk recorded.2).1.isOk
  | .problem problem =>
    (durably (Store.completeIdempotentRequest operation key request.fingerprint problem.status
      (problem.body request.correlationId) (problemHeaders request problem.headers)) disk s).1.isOk
  | .failed => (durably (Store.abortIdempotentRequest operation key request.fingerprint) abortDisk s).1.isOk

instance : ∀ outcome : Outcome, Decidable (Closes operation key request s disk abortDisk outcome)
  | .completed _ body _ => decidableEncoded body.jsonable
  | .problem _ => inferInstanceAs (Decidable (_ = true))
  | .failed => inferInstanceAs (Decidable (_ = true))

theorem aborted_record (hreserved : recordOf operation key s = some ⟨request.fingerprint, none⟩)
    (hok : (durably (Store.abortIdempotentRequest operation key request.fingerprint) disk s).1.isOk) :
    recordOf operation key (aborted operation key disk request s).2 = none := by
  unfold aborted
  cases hd : durably (Store.abortIdempotentRequest operation key request.fingerprint) disk s with
  | mk r s' =>
    rw [hd] at hok
    rcases abort_record hreserved hd with ⟨-, hrec⟩ | ⟨⟨raised, rfl⟩, -⟩
    · exact hrec
    · cases hok

/-- An execution that closes leaves no reservation behind. -/
theorem finish_closes {outcome : Outcome} (hreserved : recordOf operation key s = some ⟨request.fingerprint, none⟩)
    (hok : Closes operation key request s disk abortDisk outcome) :
    ∀ record, recordOf operation key (finish operation key outcome disk abortDisk request s).2 = some record →
      record.response ≠ none := by
  have hnone : ∀ {s' : SqliteStore}, recordOf operation key s' = none →
      ∀ record, recordOf operation key s' = some record → record.response ≠ none := by
    intro s' h record hrec
    rw [h] at hrec
    cases hrec
  have hrecorded : ∀ {statusCode : ℤ} {body : Value} {headers : Fields} {r : Except Raised StoredResponse}
      {s' : SqliteStore}, durably (Store.completeIdempotentRequest operation key request.fingerprint statusCode body
        headers) disk s = (r, s') → r.isOk →
      ∀ record, recordOf operation key s' = some record → record.response ≠ none := by
    intro statusCode body headers r s' hd hr record hrec
    rcases complete_record hreserved hd with ⟨-, hstored⟩ | ⟨⟨raised, rfl⟩, -⟩
    · rw [hstored] at hrec
      cases hrec
      exact Option.some_ne_none _
    · cases hr
  unfold finish
  cases outcome with
  | failed => exact hnone (aborted_record hreserved hok)
  | problem problem =>
    dsimp only [Closes] at hok ⊢
    cases hd : durably (Store.completeIdempotentRequest operation key request.fingerprint problem.status
        (problem.body request.correlationId) (problemHeaders request problem.headers)) disk s with
    | mk r s₁ =>
      rw [hd] at hok
      cases r with
      | ok stored => exact hrecorded hd hok
      | error raised => cases hok
  | completed statusCode body headers =>
    dsimp only [Closes] at hok ⊢
    cases hbody : body.jsonable with
    | none =>
      rw [hbody] at hok
      exact hnone (aborted_record hreserved hok)
    | some encoded =>
      rw [hbody] at hok
      dsimp only at hok ⊢
      cases hd : durably (Store.completeIdempotentRequest operation key request.fingerprint statusCode encoded
          (recordedHeaders request headers)) disk s with
      | mk r s₁ =>
        rw [hd] at hok
        cases r with
        | ok stored => exact hrecorded hd rfl
        | error raised =>
          refine hnone (aborted_record ?_ (hok.resolve_left Bool.noConfusion))
          rcases complete_record hreserved hd with ⟨hr, -⟩ | ⟨-, hrec⟩
          · cases hr
          · exact hrec.trans hreserved

/-- A request that waits hears that it is in progress while the reservation of its
fingerprint is there, or once it is gone. -/
theorem look_inProgress {timedOut : Bool}
    (h : look operation key timedOut request s = .refused idempotencyRequestInProgress) :
    recordOf operation key s = none ∨ recordOf operation key s = some ⟨request.fingerprint, none⟩ := by
  unfold look getIdempotency at h
  cases hid : Store.idempotencyIdentity operation key request.fingerprint with
  | error fault => rw [hid] at h; cases h
  | ok identity =>
    cases identity_eq_ok hid
    rw [hid] at h
    unfold recordOf
    cases hrec : s.memory.idempotency.get (operation, key) with
    | none => exact .inl rfl
    | some record =>
      obtain ⟨fingerprint, response⟩ := record
      right
      simp only [Except.map, hrec, Option.map_some, handedOut, recordOf, Option.bind_some,
        Store.idempotencyDecision] at h
      by_cases hfp : fingerprint = request.fingerprint
      · cases response with
        | none => rw [hfp]
        | some stored => simp [hfp, concluded] at h
      · simp [hfp, concluded, idempotencyKeyReused, idempotencyRequestInProgress] at h

theorem look_replays {timedOut : Bool} {stored : StoredResponse} {identity : String × String}
    (hid : Store.idempotencyIdentity operation key request.fingerprint = .ok identity)
    (hrec : recordOf operation key s = some ⟨request.fingerprint, some stored⟩) :
    look operation key timedOut request s = .answered stored := by
  cases identity_eq_ok hid
  have hget : s.memory.idempotency.get (operation, key) = some ⟨request.fingerprint, some stored⟩ := hrec
  simp [look, getIdempotency, hid, Except.map, hget, Store.idempotencyDecision, handedOut, hrec, concluded]

end Request

/-! ### Histories -/

def Stage.executes : Stage → Bool
  | .executing => true
  | _ => false

theorem Stage.executes_eq_false {stage : Stage} : stage.executes = false ↔ stage ≠ .executing := by
  cases stage <;> simp [Stage.executes]

/-- The condition on a step: no request is cancelled while it executes, and the process
does not stop then; an execution that ends closes; a request that looks for the record
finds the one that it waits for. -/
def Tending (operation key : String) (s : Server) : LifeEvent → Prop
  | .serve (.cancel i) => ∀ request ∈ s.requests[i]?, request.stage.executes = false
  | .serve (.finish i outcome disk abortDisk) =>
    ∀ request ∈ s.requests[i]?, Closes operation key request s.store disk abortDisk outcome
  | .serve (.look i _) => ∀ request ∈ s.requests[i]?, ∃ record ∈ recordOf operation key s.store,
      record.requestFingerprint = request.fingerprint
  | .serve _ => True
  | .restart => ∀ request ∈ s.requests, request.stage.executes = false

instance (operation key : String) (s : Server) (e : LifeEvent) : Decidable (Tending operation key s e) :=
  match e with
  | .serve (.cancel i) => inferInstanceAs (Decidable (∀ request ∈ s.requests[i]?, request.stage.executes = false))
  | .serve (.finish i outcome disk abortDisk) =>
    inferInstanceAs (Decidable (∀ request ∈ s.requests[i]?, Closes operation key request s.store disk abortDisk outcome))
  | .serve (.look i _) => inferInstanceAs (Decidable (∀ request ∈ s.requests[i]?, ∃ record ∈ _, _))
  | .serve (.arrive ..) | .serve (.begin ..) | .serve (.other ..) => inferInstanceAs (Decidable True)
  | .restart => inferInstanceAs (Decidable (∀ request ∈ s.requests, request.stage.executes = false))

/-- A request of the fingerprint executes. -/
def Executes (t : Server) (fingerprint : String) : Prop :=
  ∃ (i : ℕ) (request : Request), t.requests[i]? = some request ∧ request.stage = .executing ∧
    request.fingerprint = fingerprint

/-- Every reservation belongs to an execution. -/
def Alive (operation key : String) (t : Server) : Prop :=
  ∀ record, recordOf operation key t.store = some record → record.response = none →
    Executes t record.requestFingerprint

/-- The invariant of the histories whose reservations are tended. -/
structure Tended (operation key : String) (t : Server) : Prop where
  orderly : Orderly operation key t
  named : Named operation key t
  saved : Saved operation key t.store
  alive : Alive operation key t

section Steps

variable {t u : Server} {e : Event}

theorem saved_step (hi : Orderly operation key t) (hs : Saved operation key t.store)
    (h : t.step operation key o e = some u) : Saved operation key u.store := by
  cases e with
  | arrive fingerprint correlationId => cases h; exact hs
  | other op disk =>
    simp only [Server.step, Option.ite_none_left_eq_some, Option.some.injEq, Bool.not_eq_true] at h
    obtain ⟨hw, rfl⟩ := h
    exact saved_apply hs hw disk
  | begin i disk =>
    obtain ⟨request, -, h⟩ := Option.bind_eq_some_iff.mp h
    split at h
    · cases h; exact saved_begin hs
    · cases h
  | finish i outcome disk abortDisk =>
    obtain ⟨request, hget, h⟩ := Option.bind_eq_some_iff.mp h
    split at h
    · rename_i hexecuting
      cases h
      exact saved_finish outcome (hi.reserved i request hget hexecuting) hs
    · cases h
  | look i timedOut | cancel i =>
    obtain ⟨request, -, h⟩ := Option.bind_eq_some_iff.mp h
    split at h <;> cases h <;> exact hs

/-- A request that moves leaves the reservations alive, if it leaves none behind when it
has executed. -/
theorem alive_move {i : ℕ} {request : Request} {stage : Stage} (ha : Alive operation key t)
    (hget : t.requests[i]? = some request) (hreq : u.requests = t.requests.set i { request with stage := stage })
    (hm : Moves key request (recordOf operation key t.store) stage (recordOf operation key u.store))
    (hclosed : request.stage = .executing → ∀ record, recordOf operation key u.store = some record →
      record.response ≠ none) : Alive operation key u := by
  intro record hrec hnone
  by_cases hexecuting : request.stage = .executing
  · exact absurd hnone (hclosed hexecuting record hrec)
  generalize hold : recordOf operation key t.store = old at hm
  rw [hrec] at hm
  cases hm with
  | reserve hkey harrived =>
    refine ⟨i, { request with stage := .executing }, ?_, rfl, rfl⟩
    rw [hreq, List.getElem?_set, if_pos rfl, if_pos (List.getElem?_eq_some_iff.mp hget).1]
  | keep hrequest hstage =>
    obtain ⟨j, other, hj, hex, hfp⟩ := ha record hold hnone
    refine ⟨j, other, ?_, hex, hfp⟩
    have hij : i ≠ j := by
      rintro rfl
      rw [hget] at hj
      cases hj
      exact hexecuting hex
    rw [hreq, List.getElem?_set, if_neg hij]
    exact hj
  | record stored hexecuting' => exact absurd hexecuting' hexecuting
  | leave hexecuting' hstage => exact absurd hexecuting' hexecuting

theorem alive_step (ht : Tended operation key t) (hok : Tending operation key t (.serve e))
    (h : t.step operation key o e = some u) : Alive operation key u := by
  cases e with
  | arrive fingerprint correlationId =>
    cases h
    intro record hrec hnone
    obtain ⟨j, other, hj, hex, hfp⟩ := ht.alive record hrec hnone
    refine ⟨j, other, ?_, hex, hfp⟩
    rw [List.getElem?_append_left (List.getElem?_eq_some_iff.mp hj).1]
    exact hj
  | other op disk =>
    simp only [Server.step, Option.ite_none_left_eq_some, Option.some.injEq, Bool.not_eq_true] at h
    obtain ⟨hw, rfl⟩ := h
    intro record hrec hnone
    exact ht.alive record ((recordOf_apply o hw disk t.store).symm.trans hrec) hnone
  | begin i disk =>
    obtain ⟨request, hget, h⟩ := Option.bind_eq_some_iff.mp h
    split at h
    · rename_i harrived
      cases h
      refine alive_move ht.alive hget rfl (moves_begin t.store harrived) fun hex => ?_
      rw [harrived] at hex
      cases hex
    · cases h
  | look i timedOut =>
    obtain ⟨request, hget, h⟩ := Option.bind_eq_some_iff.mp h
    split at h
    · rename_i hwaiting
      cases h
      refine alive_move ht.alive hget rfl (moves_look t.store hwaiting) fun hex => ?_
      rw [hwaiting] at hex
      cases hex
    · cases h
  | finish i outcome disk abortDisk =>
    obtain ⟨request, hget, h⟩ := Option.bind_eq_some_iff.mp h
    split at h
    · rename_i hexecuting
      have hreserved := ht.orderly.reserved i request hget hexecuting
      have hmoves := moves_finish outcome disk abortDisk hreserved hexecuting
      cases h
      exact alive_move ht.alive hget rfl hmoves fun _ => finish_closes hreserved (hok request hget)
    · cases h
  | cancel i =>
    obtain ⟨request, hget, h⟩ := Option.bind_eq_some_iff.mp h
    have hidle := Stage.executes_eq_false.mp (hok request hget)
    split at h
    · cases h
      exact alive_move ht.alive hget rfl (.keep hidle Stage.noConfusion) fun hex => absurd hex hidle
    · rename_i hexecuting
      exact absurd hexecuting hidle
    · cases h

/-! ### Restarts -/

theorem lost_stage (request : Request) : request.lost.stage ≠ .executing ∧ request.lost.stage ≠ .waiting := by
  unfold Request.lost
  split <;> simp_all

theorem get_restarted {i : ℕ} {request : Request} (h : t.restarted.requests[i]? = some request) :
    request.stage ≠ .executing ∧ request.stage ≠ .waiting := by
  rw [Server.restarted, List.getElem?_map] at h
  obtain ⟨before, -, rfl⟩ := Option.map_eq_some_iff.mp h
  exact lost_stage before

/-- The record that comes back with the checkpoint has the fingerprint and the status of
the one in memory. -/
theorem recordOf_restarted (hs : Saved operation key t.store) {record : IdempotencyRecord}
    (h : recordOf operation key t.restarted.store = some record) :
    ∃ before, recordOf operation key t.store = some before ∧ before.requestFingerprint = record.requestFingerprint ∧
      before.response.isSome = record.response.isSome := by
  have hsketch : sketch operation key t.store.checkpoint =
      some (record.requestFingerprint, record.response.isSome) := congrArg (Option.map _) h
  rw [hs, sketch_eq] at hsketch
  obtain ⟨before, hbefore, heq⟩ := Option.map_eq_some_iff.mp hsketch
  obtain ⟨hfp, hresp⟩ := Prod.mk.inj heq
  exact ⟨before, hbefore, hfp, hresp⟩

theorem tended_restarted (ht : Tended operation key t) (hok : Tending operation key t .restart) :
    Tended operation key t.restarted where
  orderly :=
    { alone := fun i j request other hi hj hex => absurd hex (get_restarted hi).1
      reserved := fun i request hi hex => absurd hex (get_restarted hi).1
      visible := fun record hrec => by
        obtain ⟨before, hbefore, -⟩ := recordOf_restarted ht.saved hrec
        exact ht.orderly.visible before hbefore }
  named i request hi hwaiting := absurd hwaiting (get_restarted hi).2
  saved := rfl
  alive record hrec hnone := by
    obtain ⟨before, hbefore, -, hresp⟩ := recordOf_restarted ht.saved hrec
    rw [hnone, Option.isSome_none, Option.isSome_eq_false_iff, Option.isNone_iff_eq_none] at hresp
    obtain ⟨j, other, hj, hex, -⟩ := ht.alive before hbefore hresp
    exact absurd hex (Stage.executes_eq_false.mp (hok other (List.mem_of_getElem? hj)))

/-! ### Every history -/

theorem tended_run {store : SqliteStore} (hfree : recordOf operation key store = none)
    (hsaved : Saved operation key store) {es : List LifeEvent}
    (h : Run (fun s => s.live operation key o) (Tending operation key) (Server.init store) es t) :
    Tended operation key t := by
  refine h.invariant (I := Tended operation key) ?_ ⟨orderly_init hfree, ?_, hsaved, ?_⟩
  · intro s e v hs hok hv
    cases e with
    | serve e =>
      exact ⟨orderly_step hs.orderly hv, named_step hs.orderly hs.named hv, saved_step hs.orderly hs.saved hv,
        alive_step hs hok hv⟩
    | restart =>
      cases hv
      exact tended_restarted hs hok
  · intro i request hi
    simp [Server.init] at hi
  · intro record hrec
    rw [show (Server.init store).store = store from rfl, hfree] at hrec
    cases hrec

/-- What a client may rely on about the reservations of a key in a state of the server, as
long as the steps that follow are `ok`. -/
structure Unorphaned (operation key : String) (o : SetOrder) (ok : Server → LifeEvent → Prop) (t : Server) :
    Prop where
  /-- A record without a response belongs to an execution. -/
  alive : Alive operation key t
  /-- A request hears that it is in progress only while one of its fingerprint executes. -/
  inProgress : ∀ (i : ℕ) (request : Request) (timedOut : Bool) (u : Server), t.requests[i]? = some request →
    ok t (.serve (.look i timedOut)) → t.live operation key o (.serve (.look i timedOut)) = some u →
    u.requests[i]?.map Request.stage = some (.refused idempotencyRequestInProgress) → Executes t request.fingerprint
  /-- Otherwise a repeat that begins executes or is answered from the record. -/
  begins : ∀ (i : ℕ) (request : Request) (disk : Bool) (u : Server), t.requests[i]? = some request →
    ¬ Executes t request.fingerprint → ¬ invisible key →
    (∀ record, recordOf operation key t.store = some record → record.requestFingerprint = request.fingerprint) →
    (durably (Store.beginIdempotentRequest operation key request.fingerprint) disk t.store).1.isOk →
    t.live operation key o (.serve (.begin i disk)) = some u →
    ∃ next, u.requests[i]? = some next ∧ (next.stage = .executing ∨
      ∃ stored, recordOf operation key t.store = some ⟨request.fingerprint, some stored⟩ ∧
        next.response = some (storedHttpResponse stored))
  /-- And so is a repeat that has waited. -/
  looks : ∀ (i : ℕ) (request : Request) (timedOut : Bool) (u : Server), t.requests[i]? = some request →
    ¬ Executes t request.fingerprint → ok t (.serve (.look i timedOut)) →
    t.live operation key o (.serve (.look i timedOut)) = some u →
    ∃ next stored, u.requests[i]? = some next ∧
      recordOf operation key t.store = some ⟨request.fingerprint, some stored⟩ ∧
      next.response = some (storedHttpResponse stored)

theorem step_look {i : ℕ} {request : Request} {timedOut : Bool} (hget : t.requests[i]? = some request)
    (h : t.live operation key o (.serve (.look i timedOut)) = some u) :
    request.stage = .waiting ∧
      u.requests[i]? = some { request with stage := look operation key timedOut request t.store } := by
  obtain ⟨request', hget', h⟩ := Option.bind_eq_some_iff.mp h
  rw [hget] at hget'
  cases hget'
  split at h
  · rename_i hwaiting
    cases h
    exact ⟨hwaiting, get_moved hget⟩
  · cases h

theorem begins_of_tended (ht : Tended operation key t) {i : ℕ} {request : Request}
    (hget : t.requests[i]? = some request) (hidle : ¬ Executes t request.fingerprint) (hkey : ¬ invisible key)
    (hsame : ∀ record, recordOf operation key t.store = some record → record.requestFingerprint = request.fingerprint)
    (hok : (durably (Store.beginIdempotentRequest operation key request.fingerprint) disk t.store).1.isOk)
    (h : t.live operation key o (.serve (.begin i disk)) = some u) :
    ∃ next, u.requests[i]? = some next ∧ (next.stage = .executing ∨
      ∃ stored, recordOf operation key t.store = some ⟨request.fingerprint, some stored⟩ ∧
        next.response = some (storedHttpResponse stored)) := by
  obtain ⟨request', hget', h⟩ := Option.bind_eq_some_iff.mp h
  rw [hget] at hget'
  cases hget'
  split at h
  · cases h
    refine ⟨_, get_moved hget, ?_⟩
    cases hb : begin operation key disk request t.store with
    | mk stage s' =>
      rcases begin_cases hb with ⟨hinv, -⟩ | ⟨-, rfl, -⟩ | ⟨record, hold, -, rfl⟩ | ⟨-, -, raised, hraised⟩
      · exact absurd hinv hkey
      · exact .inl rfl
      · have hfp := hsame record hold
        cases hresp : record.response with
        | none => exact absurd (hfp ▸ ht.alive record hold hresp) hidle
        | some stored =>
          refine .inr ⟨stored, ?_, ?_⟩
          · rw [hold, ← hfp, ← hresp]
          · simp only [Request.response, found, hfp, ne_eq, not_true_eq_false, if_false, hresp]
      · rw [hraised] at hok
        cases hok
  · cases h

theorem looks_of_tended (ht : Tended operation key t) {i : ℕ} {request : Request} {timedOut : Bool}
    (hget : t.requests[i]? = some request) (hidle : ¬ Executes t request.fingerprint)
    (hok : Tending operation key t (.serve (.look i timedOut)))
    (h : t.live operation key o (.serve (.look i timedOut)) = some u) :
    ∃ next stored, u.requests[i]? = some next ∧
      recordOf operation key t.store = some ⟨request.fingerprint, some stored⟩ ∧
      next.response = some (storedHttpResponse stored) := by
  obtain ⟨hwaiting, hnext⟩ := step_look hget h
  obtain ⟨identity, hid⟩ := ht.named i request hget hwaiting
  obtain ⟨⟨fingerprint, response⟩, hrec, hfp⟩ := hok request hget
  cases hfp
  cases response with
  | none => exact absurd (ht.alive _ hrec rfl) hidle
  | some stored =>
    rw [look_replays hid hrec] at hnext
    exact ⟨_, stored, hnext, hrec, rfl⟩

/-- The reservations of a key are never orphaned as long as they are tended. -/
theorem reservations_unorphaned {store : SqliteStore} (hfree : recordOf operation key store = none)
    (hsaved : Saved operation key store) {es : List LifeEvent}
    (h : Run (fun s => s.live operation key o) (Tending operation key) (Server.init store) es t) :
    Unorphaned operation key o (Tending operation key) t := by
  have ht := tended_run hfree hsaved h
  refine ⟨ht.alive, ?_, ?_, ?_⟩
  · intro i request timedOut u hget hok hu hrefused
    obtain ⟨-, hnext⟩ := step_look hget hu
    rw [hnext] at hrefused
    obtain ⟨record, hrec, -⟩ := hok request hget
    rcases look_inProgress (Option.some.inj hrefused) with hnone | hsome
    · rw [hnone] at hrec; cases hrec
    · exact ht.alive _ hsome rfl
  · intro i request disk u hget hidle hkey hsame hok hu
    exact begins_of_tended ht hget hidle hkey hsame hok hu
  · intro i request timedOut u hget hidle hok hu
    exact looks_of_tended ht hget hidle hok hu

end Steps

/-- A request executes and its answer is recorded; the process starts again, and the
repeat is answered from the checkpoint. -/
def restarting : List LifeEvent :=
  [.serve (.arrive "f" "corr_1"), .serve (.begin 0 true),
    .serve (.finish 0 (.completed 201 (.dict []) []) true true), .restart, .serve (.arrive "f" "corr_2"),
    .serve (.begin 1 true)]

/-- The client goes away while its request executes, and repeats it. -/
def abandoning : List LifeEvent :=
  [.serve (.arrive "f" "corr_1"), .serve (.begin 0 true), .serve (.cancel 0)]

theorem reservations_unorphaned_restarting :
    ∃ t, exec (fun s => s.live "tenant:createRun" "key" Store.inOrder) (Tending "tenant:createRun" "key")
        (Server.init .init) restarting = some t ∧
      Unorphaned "tenant:createRun" "key" Store.inOrder (Tending "tenant:createRun" "key") t := by
  have hrun : (exec (fun s => s.live "tenant:createRun" "key" Store.inOrder) (Tending "tenant:createRun" "key")
      (Server.init .init) restarting).isSome := by decide +kernel
  obtain ⟨t, ht⟩ := Option.isSome_iff_exists.mp hrun
  have hsaved : Saved "tenant:createRun" "key" .init := rfl
  exact ⟨t, ht, reservations_unorphaned rfl hsaved (run_of_exec ht)⟩

/-- The reservation of a request that was cancelled stays, and no request executes. -/
theorem cancellation_orphans :
    ¬ ∀ (operation key : String) (o : SetOrder) (store : SqliteStore) (es : List LifeEvent) (t : Server),
      recordOf operation key store = none → Saved operation key store →
      Run (fun s => s.live operation key o) Free (Server.init store) es t → Unorphaned operation key o Free t := by
  intro hall
  have hrun : (exec (fun s => s.live "tenant:createRun" "key" Store.inOrder) Free (Server.init .init)
      abandoning).map (fun t => ((recordOf "tenant:createRun" "key" t.store).map fun record =>
        record.response.isSome, t.requests.map fun request => request.stage.executes)) =
      some (some false, [false]) := by decide +kernel
  obtain ⟨t, ht, h⟩ := Option.map_eq_some_iff.mp hrun
  obtain ⟨hrecord, hrequests⟩ := Prod.mk.inj h
  obtain ⟨record, hrec, hresp⟩ := Option.map_eq_some_iff.mp hrecord
  obtain ⟨i, request, hget, hex, -⟩ := (hall "tenant:createRun" "key" Store.inOrder .init abandoning t rfl rfl
    (run_of_exec ht)).alive record hrec (by simpa using hresp)
  have hmem := List.mem_map_of_mem (f := fun r : Request => r.stage.executes) (List.mem_of_getElem? hget)
  rw [hrequests] at hmem
  simp [hex, Stage.executes] at hmem

end AutomlApi.Requests
