import Mathlib.Data.List.Infix
import AutomlApi.Store.Log

/-! The readings of a run's events: those after a number, and as they are shown, where
an old failure that does not say whether it can be retried takes that from the result. -/

namespace AutomlApi.Streams

open Store (Fields Value Fault Memory logOf Numbered Sequenced)

def seqOf (event : Fields) : ℤ :=
  match event.get "seq" with
  | some (.int seq) => seq
  | _ => 0

def typeOf (event : Fields) : Value := (event.get "type").getD .null

/-- `allowed is None or event["type"] in allowed`. -/
def allowed (types : Option (List String)) (event : Fields) : Bool :=
  types.all fun types => types.any fun type => (typeOf event).equal (.str type)

/-- `get_events`. -/
def getEvents (runId : String) (afterSeq : ℤ) (limit : Option ℤ) (types : Option (List String)) (m : Memory) :
    Except Fault (List Fields) :=
  if afterSeq < 0 then .error (.value "after_seq must be non-negative")
  else if limit.any (· < 1) then .error (.value "limit must be positive")
  else if ¬ m.runs.has runId then .error (.notFound "run" runId)
  else
    match m.events.get runId with
    | none => .error (.key runId)
    | some log =>
      let later := log.filter fun event => afterSeq < seqOf event
      if types.isSome && later.any (fun event => !Store.hashable (typeOf event)) then
        .error (.type "unhashable type")
      else
        let selected := later.filter (allowed types)
        match limit with
        | none => .ok selected
        | some limit => .ok (selected.take limit.toNat)

/-- `get_result`. -/
def getResult (runId : String) (m : Memory) : Except Fault (Option Fields) :=
  if m.runs.has runId then .ok (m.results.get runId) else .error (.notFound "run" runId)

/-- `service.get_run`, less the choice of public fields: the run, if the tenant owns it. -/
def getRun (tenantId runId : String) (m : Memory) : Except Fault Fields :=
  match m.runs.get runId with
  | none => .error (.notFound "run" runId)
  | some run =>
    if ((run.get "tenant_id").getD .null).equal (.str tenantId) then .ok run else .error (.notFound "run" runId)

/-! ### Old failures -/

/-- `event.get("type") == "run.failed.v1" and "retriable" not in event.get("payload", {})`. -/
def legacyFailure (event : Fields) : Except Fault Bool :=
  if (typeOf event).equal (.str "run.failed.v1") then
    match (event.get "payload").getD (.dict []) with
    | .dict fields => .ok (!Dict.has fields "retriable")
    | .list items => .ok (!items.any (Value.equal (.str "retriable")))
    | .str s => .ok (!decide ("retriable".toList <:+: s.toList))
    | _ => .error (.type "argument is not iterable")
  else .ok false

/-- What the result of a run says about a retry. -/
def resultRetriable (result : Option Fields) : Except Fault Bool :=
  match Store.argument "retriable" (.bool false) ((result.bind (Dict.get · "reason")).getD (.dict [])) with
  | .error fault => .error fault
  | .ok (.bool retriable) => .ok retriable
  | .ok _ => .ok false

/-- `event["payload"]["retriable"] = retriable`. -/
def setRetriable (retriable : Bool) (event : Fields) : Except Fault Fields :=
  match event.get "payload" with
  | some (.dict fields) => .ok (event.set "payload" (.dict (Dict.set fields "retriable" (.bool retriable))))
  | some _ => .error (.type "object does not support item assignment")
  | none => .error (.key "payload")

/-- An event as it is shown by the rest of `public_run_events`. -/
def shown (retriable : Bool) (event : Fields) : Except Fault Fields :=
  match legacyFailure event with
  | .error fault => .error fault
  | .ok true => setRetriable retriable event
  | .ok false => .ok event

/-- `event'` is `event` as it may be shown. -/
def Shows (event event' : Fields) : Prop := event' = event ∨ ∃ retriable, shown retriable event = .ok event'

theorem Shows.get {event event' : Fields} (h : Shows event event') {k : String} (hk : k ≠ "payload") :
    event'.get k = event.get k := by
  obtain rfl | ⟨retriable, h⟩ := h
  · rfl
  unfold shown at h
  split at h
  · cases h
  · unfold setRetriable at h
    split at h
    · cases h
      rw [Dict.get_set, if_neg hk]
    · cases h
    · cases h
  · cases h
    rfl

theorem Shows.typeOf {event event' : Fields} (h : Shows event event') : typeOf event' = typeOf event := by
  rw [Streams.typeOf, h.get (by decide), Streams.typeOf]

theorem Shows.allowed {event event' : Fields} (h : Shows event event') (types : Option (List String)) :
    allowed types event' = allowed types event := by
  simp only [Streams.allowed, h.typeOf]

/-! ### The events after a number -/

theorem seqOf_numbered {log : List Fields} (h : Numbered log) {i : ℕ} {event : Fields} (hi : log[i]? = some event) :
    seqOf event = i + 1 := by
  rw [seqOf, h i event hi]

theorem filter_after_offset {log : List Fields} {k : ℕ}
    (h : ∀ (i : ℕ) event, log[i]? = some event → seqOf event = k + i + 1) (n : ℕ) :
    log.filter (fun event => decide ((n : ℤ) < seqOf event)) = log.drop (n - k) := by
  induction log generalizing k with
  | nil => simp
  | cons event log ih =>
    have hfirst : seqOf event = k + 1 := by simpa using h 0 event rfl
    have hrest := ih (k := k + 1) fun i e he => by
      rw [h (i + 1) e he]
      omega
    rw [List.filter_cons, hfirst, hrest]
    by_cases hn : n ≤ k
    · rw [if_pos (by simp; omega), Nat.sub_eq_zero_of_le hn, Nat.sub_eq_zero_of_le (by omega), List.drop_zero,
        List.drop_zero]
    · rw [if_neg (by simp; omega), show n - k = n - (k + 1) + 1 by omega, List.drop_succ_cons]

/-- The events after number `n` are those that follow the first `n`. -/
theorem filter_after {log : List Fields} (h : Numbered log) (n : ℕ) :
    log.filter (fun event => decide ((n : ℤ) < seqOf event)) = log.drop n :=
  filter_after_offset (k := 0) (fun i event hi => by rw [seqOf_numbered h hi]; omega) n

/-- Every event after a number, where the run is in order. -/
theorem getEvents_eq {runId : String} {m : Memory} (h : Sequenced runId m) (n : ℕ) :
    getEvents runId n none none m = .ok ((logOf m runId).drop n) := by
  obtain ⟨log, hlog⟩ := Option.isSome_iff_exists.mp (h.inv.events runId h.run)
  have hof : logOf m runId = log := by rw [logOf, hlog]; rfl
  have hall : ∀ events : List Fields, events.filter (allowed none) = events := fun events =>
    List.filter_eq_self.mpr fun _ _ => rfl
  rw [getEvents, if_neg (by omega), if_neg (by simp), if_neg (by simpa using h.run), hlog]
  simp only [Option.isSome_none, Bool.false_and, Bool.false_eq_true, if_false, hall]
  rw [filter_after (hof ▸ h.numbered), hof]

end AutomlApi.Streams
