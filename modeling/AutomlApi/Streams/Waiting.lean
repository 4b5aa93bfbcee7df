import AutomlApi.Library.Wakeups
import AutomlApi.Requests.Reserving
import AutomlApi.Streams.Events

/-! The waits of the store, for events of a run and for the response to an idempotency
key, with the notifications that its operations schedule. A call that raises after it
has logged an event schedules none, and only then can a wake-up be lost. -/

namespace AutomlApi.Streams

open Act Runs
open Requests (getIdempotency writesRecord)
open Store (Fields Value Fault Memory Op SqliteStore SetOrder StoreM logOf recordEvent recordRevised prepareEvent
  putRun putResult patched)

/-! ### Waits and notifications -/

/-- What a condition is kept for: the events of a run, or an idempotency key. -/
inductive Topic where
  | events (runId : String)
  | response (operation key : String)
  deriving DecidableEq

/-- A call of `wait_for_events` or of `wait_for_idempotent_response`. -/
inductive Want where
  | events (runId : String) (afterSeq : ℤ) (limit : Option ℤ) (types : Option (List String))
  | response (operation key fingerprint : String)

def Want.topic : Want → Topic
  | .events runId .. => .events runId
  | .response operation key _ => .response operation key

/-- What a waiter reads: whether there are events, or a decision other than IN_PROGRESS. -/
def Want.look (s : SqliteStore) : Want → Option Bool
  | .events runId afterSeq limit types =>
    match getEvents runId afterSeq limit types s.memory with
    | .error _ => none
    | .ok found => some !found.isEmpty
  | .response operation key fingerprint =>
    match getIdempotency operation key fingerprint s.memory with
    | .error _ => none
    | .ok decision => some (decision ≠ some .inProgress)

/-- The notifications that a method schedules before it returns: one for each event that
it has created, and one for a response that it has stored or taken back. -/
def notified (o : SetOrder) (op : Op) (m : Memory) : List Topic :=
  match op.method o m with
  | (.error _, _) => []
  | (.ok _, m') =>
    match op with
    | .appendEvent runId _ | .mutateRunWithEvent runId .. | .finalizeRunWithResult runId .. =>
      List.replicate ((logOf m' runId).length - (logOf m runId).length) (.events runId)
    | .completeIdempotentRequest operation key .. => [.response operation key]
    | .abortIdempotentRequest operation key fingerprint =>
      match (Store.abortIdempotentRequest operation key fingerprint m).1 with
      | .ok true => [.response operation key]
      | _ => []
    | _ => []

def monitor (o : SetOrder) : Wakeups.Monitor SqliteStore Store.Event Want Topic where
  topic := Want.topic
  look w s := w.look s
  write s e := s.step o e
  wakes s e :=
    match e with
    | .call _ op => notified o op s.memory
    | _ => []

/-! ### Calls that log an event and raise -/

/-- An event of a mutation that would be logged. -/
def createsEvent (runId : String) (run : Fields) (value : Value) (m : Memory) : Bool :=
  match Store.revised run value with
  | .error _ => false
  | .ok event =>
    match prepareEvent runId event m with
    | .ok (.fresh _) => true
    | _ => false

/-- Either all the events of a final mutation can be recorded, or the first that cannot
be is refused when none has been logged yet. -/
def announcedAll (o : SetOrder) (runId : String) (run : Fields) : Bool → List Value → Memory → Bool
  | _, [], _ => true
  | logged, value :: rest, m =>
    if Store.revisable o runId run value m then
      announcedAll o runId run (logged || createsEvent runId run value m) rest (recordRevised o runId run value m).2
    else !logged && Store.refused runId run value m

/-- The condition, on the memory before the call, under which an operation does not
raise after it has logged an event. -/
def Announced (o : SetOrder) (m : Memory) : Op → Prop
  | .appendEvent runId value => (prepareEvent runId value m).isOk → Store.recordable o runId value m
  | .mutateRunWithEvent runId updates event expected bump =>
    ∀ current revision changes, Store.currentRevision runId expected m = .ok (current, revision) →
      Store.mapping "run updates" updates = .ok changes →
      let run := patched current changes (if bump then some revision else none)
      Store.refused runId run event (putRun runId run m) ∨ Store.revisable o runId run event (putRun runId run m)
  | .finalizeRunWithResult runId result updates events expected =>
    ∀ current revision stored m' changes, Store.currentRevision runId expected m = .ok (current, revision) →
      Store.storedResult runId result m = (.ok stored, m') → Store.runChanges runId updates = .ok changes →
      let run := patched current changes (some revision)
      announcedAll o runId run false events (putRun runId run (putResult runId stored m'))
  | _ => True

section Raising

variable {o : SetOrder} {runId : String} {m m' : Memory} {fault : Fault}

theorem recordEvent_raises (hm : m.Inv) {value : Value}
    (hok : (prepareEvent runId value m).isOk → Store.recordable o runId value m)
    (h : recordEvent o runId value m = (.error fault, m')) : m' = m := by
  rcases Store.recordEvent_error hm h with ⟨-, rfl⟩ | ⟨hprepared, -⟩
  · rfl
  · obtain ⟨_, _, h'⟩ := (Store.succeeds_recordEvent o runId value hm).mpr (hok hprepared)
    rw [h] at h'
    cases h'

theorem recordRevised_raises (hm : m.Inv) {run : Fields} {value : Value}
    (hok : Store.refused runId run value m ∨ Store.revisable o runId run value m)
    (h : recordRevised o runId run value m = (.error fault, m')) : m' = m := by
  rcases Store.recordRevised_error hm h with ⟨-, rfl⟩ | ⟨hrefused, -⟩
  · rfl
  · rcases hok with hok | hok
    · rw [hrefused] at hok
      cases hok
    · obtain ⟨_, _, h'⟩ := (Store.succeeds_recordRevised hm o runId run value).mpr hok
      rw [h] at h'
      cases h'

/-- An event that would not be logged leaves the memory as it is. -/
theorem recordRevised_existing (hm : m.Inv) {run : Fields} {value : Value}
    (hno : createsEvent runId run value m = false) : (recordRevised o runId run value m).2 = m := by
  rw [Store.recordRevised_eq, check_bind]
  unfold createsEvent at hno
  cases hrev : Store.revised run value with
  | error fault => rfl
  | ok event =>
    rw [hrev] at hno
    rcases Store.recordEvent_cases o runId event hm with ⟨_, -, h⟩ | ⟨_, -, h⟩ | ⟨_, _, h, -⟩
    · exact congrArg Prod.snd h
    · exact congrArg Prod.snd h
    · simp [h] at hno

theorem recordAll_raises (hm : m.Inv) {run : Fields} {events : List Value} {logged : Bool}
    (hok : announcedAll o runId run logged events m)
    (h : Store.recordAll o runId run events m = (.error fault, m')) : logged = false ∧ m' = m := by
  induction events generalizing m logged with
  | nil => cases h
  | cons value rest ih =>
    rw [Store.recordAll_eq] at h
    unfold announcedAll at hok
    split at hok
    · rename_i hrevisable
      obtain ⟨event, t, hfirst⟩ := (Store.succeeds_recordRevised hm o runId run value).mpr hrevisable
      rw [bind_eq, hfirst] at h
      rw [hfirst] at hok
      have hinv := Store.inv_recordRevised hm o runId run value
      rw [hfirst] at hinv
      have hrest : Store.recordAll o runId run rest t = (.error fault, m') := by
        rcases bind_eq_error h with h | ⟨_, _, -, h⟩
        · exact h
        · cases h
      obtain ⟨hlogged, rfl⟩ := ih hinv hok hrest
      rw [Bool.or_eq_false_iff] at hlogged
      have hsame := recordRevised_existing (o := o) hm hlogged.2
      rw [hfirst] at hsame
      exact ⟨hlogged.1, hsame⟩
    · rename_i hrevisable
      rw [Bool.and_eq_true, Bool.not_eq_true'] at hok
      rcases bind_eq_error h with h | ⟨_, _, hfirst, -⟩
      · exact ⟨hok.1, recordRevised_raises hm (.inl hok.2) h⟩
      · exact absurd ((Store.succeeds_recordRevised hm o runId run value).mp ⟨_, _, hfirst⟩) hrevisable

theorem mutate_raises (hm : m.Inv) {updates event : Value} {expected : Option ℤ} {bump : Bool}
    (hok : Announced o m (.mutateRunWithEvent runId updates event expected bump))
    (h : Store.mutateRunWithEvent o runId updates event expected bump m = (.error fault, m')) :
    m'.events = m.events := by
  rw [Store.mutateRunWithEvent, bind_eq, Store.requireRevision_eq] at h
  cases hcur : Store.currentRevision runId expected m with
  | error fault =>
    rw [hcur] at h
    cases h
    rfl
  | ok p =>
    obtain ⟨current, revision⟩ := p
    rw [hcur] at h
    simp only [check_bind] at h
    cases hmap : Store.mapping "run updates" updates with
    | error fault =>
      rw [hmap] at h
      cases h
      rfl
    | ok changes =>
      rw [hmap] at h
      dsimp only at h
      rw [modify_bind] at h
      have hinv := Store.inv_putRun hm (Dict.has_of_get (Store.has_of_currentRevision hcur))
        (patched current changes (if bump then some revision else none))
      rcases bind_eq_error h with h | ⟨_, _, -, h⟩
      · rw [recordRevised_raises hinv (hok current revision changes hcur hmap) h]
        rfl
      · cases h

theorem finalize_raises (hm : m.Inv) {result updates : Value} {events : List Value} {expected : Option ℤ}
    (hok : Announced o m (.finalizeRunWithResult runId result updates events expected))
    (h : Store.finalizeRunWithResult o runId result updates events expected m = (.error fault, m')) :
    m'.events = m.events := by
  rw [Store.finalizeRunWithResult, bind_eq, Store.requireRevision_eq] at h
  cases hcur : Store.currentRevision runId expected m with
  | error fault =>
    rw [hcur] at h
    cases h
    rfl
  | ok p =>
    obtain ⟨current, revision⟩ := p
    rw [hcur] at h
    dsimp only at h
    have hsame := Store.within_storedResult runId result m
    rw [bind_eq] at h
    cases hstored : Store.storedResult runId result m with
    | mk r t =>
      rw [hstored] at h hsame
      have hevents : t.events = m.events := hsame.quiet.events
      cases r with
      | error fault =>
        cases h
        exact hevents
      | ok stored =>
        dsimp only at h
        rw [modify_bind, check_bind] at h
        cases hch : Store.runChanges runId updates with
        | error fault =>
          rw [hch] at h
          cases h
          exact hevents
        | ok changes =>
          rw [hch] at h
          dsimp only at h
          rw [modify_bind] at h
          have hput : (putResult runId stored t).Inv := (Store.quiet_putResult ..).inv (hsame.quiet.inv hm)
          have hrun : (putResult runId stored t).runs.get runId = some current := by
            obtain ⟨_, rfl⟩ := hsame
            exact Store.has_of_currentRevision hcur
          have hinv := Store.inv_putRun hput (Dict.has_of_get hrun) (patched current changes (some revision))
          rcases bind_eq_error h with h | ⟨_, _, -, h⟩
          · rw [(recordAll_raises hinv (hok current revision stored t changes hcur hstored hch) h).2]
            exact hevents
          · cases h

theorem void_error {α : Type} {p : StoreM α} (h : Op.method.void p m = (.error fault, m')) :
    p m = (.error fault, m') := by
  rcases bind_eq_error h with h | ⟨_, _, -, h⟩
  · exact h
  · cases h

/-- A call that raises leaves the log of a run as it is, under the condition. -/
theorem method_raises (hm : m.Inv) (hrun : m.runs.has runId) {op : Op} (hop : op.creates fun _ => true)
    (hok : Announced o m op) (h : op.method o m = (.error fault, m')) : logOf m' runId = logOf m runId := by
  have hevents : m'.events = m.events → logOf m' runId = logOf m runId := fun he => by rw [logOf, he, logOf]
  by_cases hon : op.records = some runId
  · cases op with
    | appendEvent id value =>
      cases hon
      rw [recordEvent_raises hm hok (void_error h)]
    | mutateRunWithEvent id updates event expected bump =>
      cases hon
      exact hevents (mutate_raises hm hok (void_error h))
    | finalizeRunWithResult id result updates events expected =>
      cases hon
      exact hevents (finalize_raises hm hok (void_error h))
    | _ => cases hon
  · have hrests := (Store.logFrame_rests o runId).method hm hop (fun id hid he => hon (he ▸ hid)) hrun
    rw [h] at hrests
    exact hrests.2

/-- A call that returns and leaves the log of a run longer notifies the waits for its events. -/
theorem method_returns (hm : m.Inv) (hrun : m.runs.has runId) {op : Op} (hop : op.creates fun _ => true)
    (h : op.method o m = (.ok (), m')) (hlog : logOf m' runId ≠ logOf m runId) :
    Topic.events runId ∈ notified o op m := by
  have hon : op.records = some runId := by
    by_contra hon
    have hrests := (Store.logFrame_rests o runId).method hm hop (fun id hid he => hon (he ▸ hid)) hrun
    rw [h] at hrests
    exact hlog hrests.2
  have hgrows := (Store.logFrame_grows o runId).method hm hop (fun _ _ => trivial) hrun
  rw [h] at hgrows
  have hlonger : (logOf m runId).length < (logOf m' runId).length := by
    refine lt_of_le_of_ne hgrows.2.length_le fun heq => hlog ?_
    exact (hgrows.2.eq_of_length heq).symm
  have hmem : Topic.events runId ∈
      List.replicate ((logOf m' runId).length - (logOf m runId).length) (Topic.events runId) :=
    List.mem_replicate.mpr ⟨by omega, rfl⟩
  unfold notified
  rw [h]
  cases op with
  | appendEvent id value => cases hon; exact hmem
  | mutateRunWithEvent id updates event expected bump => cases hon; exact hmem
  | finalizeRunWithResult id result updates events expected => cases hon; exact hmem
  | _ => cases hon

/-! ### Responses -/

theorem look_response {s : SqliteStore} {operation key fingerprint : String}
    (h : (Want.response operation key fingerprint).look s = some false) :
    s.memory.idempotency.get (operation, key) = some ⟨fingerprint, none⟩ := by
  simp only [Want.look, getIdempotency] at h
  cases hid : Store.idempotencyIdentity operation key fingerprint with
  | error fault =>
    rw [hid] at h
    cases h
  | ok identity =>
    cases Requests.identity_eq_ok hid
    rw [hid] at h
    simp only [Except.map, Option.some.injEq, decide_eq_false_iff_not, not_not, Option.map_eq_some_iff] at h
    obtain ⟨record, hrecord, hdecision⟩ := h
    rw [hrecord]
    obtain ⟨requestFingerprint, response⟩ := record
    simp only [Store.idempotencyDecision] at hdecision
    split at hdecision
    · cases hdecision
    · rename_i hsame
      split at hdecision
      · rename_i hnone
        rw [ne_eq, not_not] at hsame
        rw [hsame, Option.isNone_iff_eq_none.mp hnone]
      · cases hdecision

theorem look_of_record {s s' : SqliteStore} {operation key fingerprint : String}
    (h : s'.memory.idempotency.get (operation, key) = s.memory.idempotency.get (operation, key)) :
    (Want.response operation key fingerprint).look s' = (Want.response operation key fingerprint).look s := by
  simp only [Want.look, getIdempotency]
  cases hid : Store.idempotencyIdentity operation key fingerprint with
  | error fault => rfl
  | ok identity =>
    cases Requests.identity_eq_ok hid
    simp only [Except.map, h]

/-- A method that changes the record of a reservation notifies the waits for its response. -/
theorem response_notified {operation key fingerprint : String}
    (hrecord : m.idempotency.get (operation, key) = some ⟨fingerprint, none⟩) {op : Op}
    (hop : op.creates fun _ => true)
    (h : (op.method o m).2.idempotency.get (operation, key) ≠ m.idempotency.get (operation, key)) :
    Topic.response operation key ∈ notified o op m := by
  have hwrites : writesRecord operation key op = true := by
    by_contra hno
    exact h (Requests.SameRecord.method o (by simpa using hno) m)
  have hput : Store.putRecord (operation, key) ⟨fingerprint, none⟩ m = m := by
    rw [Store.putRecord, Dict.set_get hrecord]
  cases op with
  | beginIdempotentRequest o' k' fp =>
    obtain ⟨rfl, rfl⟩ := of_decide_eq_true hwrites
    refine absurd ?_ h
    rw [Op.method, Store.LogFrame.void_snd, Store.beginIdempotentRequest, check_bind]
    cases hid : Store.idempotencyIdentity o' k' fp with
    | error fault => rfl
    | ok identity =>
      cases Requests.identity_eq_ok hid
      dsimp only
      rw [get_bind, hrecord]
      exact hrecord
  | completeIdempotentRequest o' k' fp statusCode body headers =>
    obtain ⟨rfl, rfl⟩ := of_decide_eq_true hwrites
    have hraised : ∀ {fault}, Store.completeIdempotentRequest o' k' fp statusCode body headers m = (.error fault, m) →
        Topic.response o' k' ∈ notified o (.completeIdempotentRequest o' k' fp statusCode body headers) m :=
      fun he => absurd (by rw [Op.method, Store.LogFrame.void_snd, he]) h
    cases hid : Store.idempotencyIdentity o' k' fp with
    | error fault => exact hraised (by rw [Store.completeIdempotentRequest, check_bind, hid])
    | ok identity =>
      cases Requests.identity_eq_ok hid
      have heq : Store.completeIdempotentRequest o' k' fp statusCode body headers m
          = (if fingerprint ≠ fp then raise (.idempotencyConflict o' k' fp fingerprint)
            else check (Store.storedResponse statusCode body headers) >>= fun response =>
              modify (Store.putRecord (o', k') ⟨fingerprint, some response⟩) >>= fun _ => pure response) m := by
        rw [Store.completeIdempotentRequest, check_bind, hid]
        dsimp only
        rw [get_bind, hrecord, Option.getD_some, modify_bind, hput]
      by_cases hfp : fingerprint ≠ fp
      · rw [if_pos hfp] at heq
        exact hraised heq
      rw [if_neg hfp, check_bind] at heq
      cases hstored : Store.storedResponse statusCode body headers with
      | error fault =>
        rw [hstored] at heq
        exact hraised heq
      | ok response =>
        rw [hstored] at heq
        have hok := bind_of_ok (k := fun _ => pure ()) (heq.trans (modify_bind _ _ m))
        unfold notified
        rw [show Op.method o (.completeIdempotentRequest o' k' fp statusCode body headers) m = _ from hok]
        exact List.mem_singleton_self _
  | abortIdempotentRequest o' k' fp =>
    obtain ⟨rfl, rfl⟩ := of_decide_eq_true hwrites
    have hsame : ∀ {r}, Store.abortIdempotentRequest o' k' fp m = (r, m) →
        Topic.response o' k' ∈ notified o (.abortIdempotentRequest o' k' fp) m :=
      fun he => absurd (by rw [Op.method, Store.LogFrame.void_snd, he]) h
    cases hid : Store.idempotencyIdentity o' k' fp with
    | error fault => exact hsame (by rw [Store.abortIdempotentRequest, check_bind, hid])
    | ok identity =>
      cases Requests.identity_eq_ok hid
      by_cases hfp : fingerprint ≠ fp
      · refine hsame (r := .error (.idempotencyConflict o' k' fp fingerprint)) ?_
        rw [Store.abortIdempotentRequest, check_bind, hid]
        dsimp only
        rw [get_bind, hrecord]
        dsimp only
        rw [if_pos hfp]
        rfl
      have hdone : Store.abortIdempotentRequest o' k' fp m
          = (.ok true, { m with idempotency := m.idempotency.erase (o', k') }) := by
        rw [Store.abortIdempotentRequest, check_bind, hid]
        dsimp only
        rw [get_bind, hrecord]
        dsimp only
        rw [if_neg hfp]
        rfl
      unfold notified
      rw [show Op.method o (.abortIdempotentRequest o' k' fp) m = _ from bind_of_ok hdone]
      dsimp only
      rw [hdone]
      exact List.mem_singleton_self _
  | reset => cases hop
  | _ => cases hwrites

end Raising

/-! ### No wake-up is lost -/

/-- The store goes on in one process, and no call raises after it has logged an event. -/
def AllAnnounced (o : SetOrder) (s : Wakeups.State SqliteStore Want Topic) : Wakeups.Event Store.Event Want → Prop
  | .write e => (e.within fun _ => true) ∧ ∀ disk op, e = .call disk op → Announced o s.shared.memory op
  | _ => True

theorem getEvents_congr {runId : String} {m m' : Memory} (hm : m.Inv) (hm' : m'.Inv) (hrun : m.runs.has runId)
    (hrun' : m'.runs.has runId) (hlog : logOf m' runId = logOf m runId) (afterSeq : ℤ) (limit : Option ℤ)
    (types : Option (List String)) :
    getEvents runId afterSeq limit types m' = getEvents runId afterSeq limit types m := by
  obtain ⟨log, hget⟩ := Option.isSome_iff_exists.mp (hm.events runId hrun)
  obtain ⟨log', hget'⟩ := Option.isSome_iff_exists.mp (hm'.events runId hrun')
  simp only [logOf, hget, hget', Option.getD_some] at hlog
  simp only [getEvents, hget, hget', hrun, hrun', hlog]

theorem has_of_getEvents {runId : String} {m : Memory} {afterSeq : ℤ} {limit : Option ℤ}
    {types : Option (List String)} {events : List Fields}
    (h : getEvents runId afterSeq limit types m = .ok events) : m.runs.has runId := by
  by_contra hno
  unfold getEvents at h
  split at h
  · cases h
  · split at h
    · cases h
    · cases h

/-- The memory after a call: as before, or as its method leaves it. -/
theorem memory_call (o : SetOrder) {s : SqliteStore} (hs : s.Inv) (disk : Bool) {op : Op}
    (hop : op.creates fun _ => true) :
    (s.step o (.call disk op)).memory = s.memory ∨ (s.step o (.call disk op)).memory = (op.method o s.memory).2 := by
  have hreset : op ≠ .reset := fun h => by
    subst h
    cases hop
  show (op.apply o disk s).2.memory = _ ∨ (op.apply o disk s).2.memory = _
  rcases Store.apply_cases o disk s hreset with happly | happly
  · rw [happly]
    unfold Store.durableMutation
    cases op.method o s.memory with
    | mk r memory =>
      cases r with
      | error fault => exact .inr rfl
      | ok _ =>
        dsimp only
        split
        · exact .inl (Store.restore_eq hs.memory)
        · split
          · exact .inr rfl
          · exact .inl (Store.restore_eq hs.memory)
  · exact .inl happly

/-- A call that turns what a waiter reads notifies its topic. -/
theorem announces_call (o : SetOrder) {s : SqliteStore} (hs : s.Inv) (disk : Bool) {op : Op}
    (hop : op.creates fun _ => true) (hok : Announced o s.memory op) :
    (monitor o).Announces s (.call disk op) := by
  intro w hno hturned
  change w.look s = some false at hno
  change w.look (s.step o (.call disk op)) ≠ some false at hturned
  show w.topic ∈ notified o op s.memory
  have hinv' := Store.inv_step o hs (.call disk op)
  have hmemory := memory_call o hs disk hop
  cases w with
  | events runId afterSeq limit types =>
    cases hread : getEvents runId afterSeq limit types s.memory with
    | error fault =>
      simp only [Want.look, hread] at hno
      cases hno
    | ok found =>
      have hrun := has_of_getEvents hread
      have hgrows := (Store.logFrame_grows o runId).step hs.memory (e := .call disk op) hop
        (fun _ _ _ _ _ => trivial) hrun
      have hlog : logOf (s.step o (.call disk op)).memory runId ≠ logOf s.memory runId := fun hlog => by
        apply hturned
        rw [Want.look, getEvents_congr hs.memory hinv'.memory hrun hgrows.1 hlog]
        exact hno
      have hafter : (s.step o (.call disk op)).memory = (op.method o s.memory).2 :=
        hmemory.resolve_left fun heq => hlog (by rw [heq])
      rw [hafter] at hlog
      cases hmethod : op.method o s.memory with
      | mk r m' =>
        rw [hmethod] at hlog
        cases r with
        | error fault => exact absurd (method_raises hs.memory hrun hop hok hmethod) hlog
        | ok _ => exact method_returns hs.memory hrun hop hmethod hlog
  | response operation key fingerprint =>
    have hrecord := look_response hno
    have hchanged : (s.step o (.call disk op)).memory.idempotency.get (operation, key)
        ≠ s.memory.idempotency.get (operation, key) := fun heq => by
      rw [look_of_record heq] at hturned
      exact hturned hno
    have hafter : (s.step o (.call disk op)).memory = (op.method o s.memory).2 :=
      hmemory.resolve_left fun heq => hchanged (by rw [heq])
    rw [hafter] at hchanged
    exact response_notified hrecord hop hchanged

/-- A step that opens a dictionary for what it reads turns no reading of a waiter. -/
theorem announces_same (o : SetOrder) {s : SqliteStore} {e : Store.Event}
    (hruns : (s.step o e).memory.runs = s.memory.runs) (hevents : (s.step o e).memory.events = s.memory.events)
    (hidempotency : (s.step o e).memory.idempotency = s.memory.idempotency) : (monitor o).Announces s e := by
  intro w hno hturned
  refine absurd (show w.look (s.step o e) = some false from ?_) hturned
  rw [← show w.look s = some false from hno]
  cases w with
  | events runId afterSeq limit types => simp only [Want.look, getEvents, hruns, hevents]
  | response operation key fingerprint => exact look_of_record (by rw [hidempotency])

theorem announces_step (o : SetOrder) {s : SqliteStore} (hs : s.Inv) {e : Store.Event} (he : e.within fun _ => true)
    (hok : ∀ disk op, e = .call disk op → Announced o s.memory op) : (monitor o).Announces s e := by
  cases e with
  | call disk op => exact announces_call o hs disk he (hok disk op rfl)
  | readApprovals runId => refine announces_same o ?_ ?_ ?_ <;> simp only [SqliteStore.step] <;> split <;> rfl
  | readDeliveries endpointId => refine announces_same o ?_ ?_ ?_ <;> simp only [SqliteStore.step] <;> split <;> rfl
  | reopen => cases he

/-- In every run in which no call raises after it has logged an event, no wake-up is lost. -/
theorem wakeups_kept {o : SetOrder} {s : SqliteStore} (hs : s.Reachable o)
    {es : List (Wakeups.Event Store.Event Want)} {t : Wakeups.State SqliteStore Want Topic}
    (h : Run (monitor o).step (AllAnnounced o) ⟨s, [], [], []⟩ es t) : ¬ (monitor o).Lost t := by
  refine Wakeups.Monitor.never_lost (I := SqliteStore.Inv) (fun s e hs _ => Store.inv_step o hs e)
    (fun s e hs hok => announces_step o hs hok.1 hok.2) (Store.inv_reachable hs) h

/-! ### A wake-up that is lost -/

namespace Unheard

/-- A task waits for the first event of a run. -/
def waiting : List (Wakeups.Event Store.Event Want) :=
  [.arrive (.events "run_1" 0 none none), .acquire 0, .check 0, .park 0]

def event : Value := .dict [("type", .str "run.completed.v1")]

def append : Store.Event := .call true (.appendEvent "run_1" event)

/-- The second of two events names another run. -/
def finalize : Store.Event :=
  .call true (.finalizeRunWithResult "run_1" (.dict [("status", .str "SUCCEEDED")]) (.dict [])
    [event, .dict [("run_id", .str "run_2")]] none)

def start : Wakeups.State SqliteStore Want Topic := ⟨Store.Stray.store, [], [], []⟩

def lost (s : Wakeups.State SqliteStore Want Topic) : Bool :=
  s.notifiers.isEmpty && s.waiters.any fun w => decide (w.stage = .parked) && decide (w.want.look s.shared = some true)

theorem lost_of {s : Wakeups.State SqliteStore Want Topic} (h : lost s) : (monitor Store.inOrder).Lost s := by
  simp only [lost, Bool.and_eq_true, List.isEmpty_iff, List.any_eq_true, decide_eq_true_eq] at h
  obtain ⟨hnone, w, hw, hparked, hlook⟩ := h
  refine ⟨w, hw, hparked, hlook, ?_⟩
  rintro ⟨n, hn, -⟩
  rw [hnone] at hn
  cases hn

end Unheard

/-- The append notifies the parked task, which goes to take its lock again. -/
theorem wakeups_kept_append : ∃ t,
    Run (monitor Store.inOrder).step (AllAnnounced Store.inOrder) Unheard.start
      (Unheard.waiting ++ [.write Unheard.append, .enter 0, .notify 0]) t ∧
    t.waiters.map (·.stage) = [.waking] ∧ ¬ (monitor Store.inOrder).Lost t := by
  have hannounced : ∀ disk op, Unheard.append = .call disk op →
      Announced Store.inOrder Store.Stray.store.memory op := by
    intro disk op h
    cases h
    intro _
    decide +kernel
  have hrun : Run (monitor Store.inOrder).step (AllAnnounced Store.inOrder) Unheard.start
      (Unheard.waiting ++ [.write Unheard.append, .enter 0, .notify 0]) _ :=
    .cons trivial rfl (.cons trivial rfl (.cons trivial rfl (.cons trivial rfl
      (.cons ⟨rfl, hannounced⟩ rfl (.cons trivial rfl (.cons trivial rfl (.nil _)))))))
  exact ⟨_, hrun, rfl, wakeups_kept Store.Stray.reachable_store hrun⟩

/-- A final mutation logs its first event, raises at its second and notifies nobody. -/
theorem wakeup_lost : ∃ s t, s.Reachable Store.inOrder ∧
    Run (monitor Store.inOrder).step Free ⟨s, [], [], []⟩ (Unheard.waiting ++ [.write Unheard.finalize]) t ∧
      (monitor Store.inOrder).Lost t := by
  have h : (exec (monitor Store.inOrder).step Free Unheard.start
      (Unheard.waiting ++ [.write Unheard.finalize])).any Unheard.lost = true := by decide +kernel
  obtain ⟨t, ht, hlost⟩ := (Option.any_eq_true _ _).mp h
  exact ⟨_, t, Store.Stray.reachable_store, run_of_exec ht, Unheard.lost_of hlost⟩

end AutomlApi.Streams
