import AutomlApi.Store.Frames
import AutomlApi.Store.Mutations

/-! The event log of one run over the operations of the store. Its events are numbered
from one on without a gap, the run names the last number, and an operation only ever
adds to the end of the log. -/

namespace AutomlApi.Store

open Act

/-! ### The operations that write runs, events or records -/

/-- An operation that creates no run but of a value in `new`, and does not clear the store. -/
def Op.creates (new : Value → Bool) : Op → Bool
  | .createRun value => new value
  | .reset => false
  | _ => true

/-- The run whose events an operation appends. -/
def Op.records : Op → Option String
  | .appendEvent runId _ | .mutateRunWithEvent runId .. | .finalizeRunWithResult runId .. => some runId
  | _ => none

/-- A frame that also holds across every write to a run, to the events of the runs in
`on` and to the idempotency records, from a state with the invariant. -/
structure LogFrame (o : SetOrder) (new : Value → Bool) (on : String → Prop) (R : Memory → Memory → Prop) :
    Prop extends Frame R where
  idempotency : ∀ m d, R m { m with idempotency := d }
  created : ∀ {m : Memory}, m.Inv → ∀ value, new value → R m (createRun value m).2
  patched : ∀ {m : Memory}, m.Inv → ∀ {runId : String} {current : Fields}, m.runs.get runId = some current →
    ∀ changes revision, R m (putRun runId (Store.patched current changes revision) m)
  recorded : ∀ {m : Memory}, m.Inv → ∀ {runId : String}, on runId → ∀ value, R m (recordEvent o runId value m).2

namespace LogFrame

variable {o : SetOrder} {new : Value → Bool} {on : String → Prop} {R : Memory → Memory → Prop} {m : Memory}
  {runId : String}

/-- Dropping the reply of a program changes nothing of what it does. -/
theorem void_snd {α : Type} (p : StoreM α) (m : Memory) : (Op.method.void p m).2 = (p m).2 := by
  rw [Op.method.void, bind_eq]
  cases p m with
  | mk r s => cases r <;> rfl

theorem recordRevised (hR : LogFrame o new on R) (hm : m.Inv) (hon : on runId) (run : Fields) (value : Value) :
    R m (recordRevised o runId run value m).2 := by
  rw [recordRevised_eq, check_bind]
  cases revised run value with
  | error fault => exact hR.refl m
  | ok event => exact hR.recorded hm hon event

theorem recordAll (hR : LogFrame o new on R) (hm : m.Inv) (hon : on runId) (run : Fields) (events : List Value) :
    R m (recordAll o runId run events m).2 := by
  induction events generalizing m with
  | nil => exact hR.refl m
  | cons value rest ih =>
    rw [recordAll_eq, bind_eq]
    have hfirst := hR.recordRevised hm hon run value
    have hinv := inv_recordRevised hm o runId run value
    cases h : Store.recordRevised o runId run value m with
    | mk r s =>
      rw [h] at hfirst hinv
      cases r with
      | error fault => exact hfirst
      | ok event =>
        have hrest := ih hinv
        refine hR.trans _ _ _ hfirst ?_
        dsimp only
        rw [bind_eq]
        revert hrest
        cases Store.recordAll o runId run rest s with
        | mk r t => cases r <;> exact id

theorem updateRun (hR : LogFrame o new on R) (hm : m.Inv) (runId : String) (updates : Value) (expected : Option ℤ)
    (bump : Bool) : R m (updateRun runId updates expected bump m).2 := by
  rw [Store.updateRun, bind_eq, requireRevision_eq]
  cases hcur : currentRevision runId expected m with
  | error fault => exact hR.refl m
  | ok p =>
    dsimp only
    rw [check_bind]
    cases runChanges runId updates with
    | error fault => exact hR.refl m
    | ok changes => exact hR.patched hm (has_of_currentRevision hcur) changes _

theorem mutateRunWithEvent (hR : LogFrame o new on R) (hm : m.Inv) (hon : on runId) (updates event : Value)
    (expected : Option ℤ) (bump : Bool) : R m (mutateRunWithEvent o runId updates event expected bump m).2 := by
  rw [Store.mutateRunWithEvent, bind_eq, requireRevision_eq]
  cases hcur : currentRevision runId expected m with
  | error fault => exact hR.refl m
  | ok p =>
    dsimp only
    rw [check_bind]
    cases mapping "run updates" updates with
    | error fault => exact hR.refl m
    | ok changes =>
      have hrun := has_of_currentRevision hcur
      refine hR.trans _ _ _ (hR.patched hm hrun changes (if bump then some p.2 else none)) ?_
      have hput := inv_putRun hm (Dict.has_of_get hrun)
        (Store.patched p.1 changes (if bump then some p.2 else none))
      have hrec := hR.recordRevised hput hon (Store.patched p.1 changes (if bump then some p.2 else none)) event
      dsimp only
      rw [modify_bind, bind_eq]
      revert hrec
      cases Store.recordRevised o runId _ event _ with
      | mk r s => cases r <;> exact id

theorem finalizeRunWithResult (hR : LogFrame o new on R) (hm : m.Inv) (hon : on runId) (result updates : Value)
    (events : List Value) (expected : Option ℤ) :
    R m (finalizeRunWithResult o runId result updates events expected m).2 := by
  rw [Store.finalizeRunWithResult, bind_eq, requireRevision_eq]
  cases hcur : currentRevision runId expected m with
  | error fault => exact hR.refl m
  | ok p =>
    dsimp only
    have hsame := within_storedResult runId result m
    rw [bind_eq]
    cases hstored : storedResult runId result m with
    | mk r t =>
      rw [hstored] at hsame
      cases r with
      | error fault => exact hR.same hsame
      | ok stored =>
        dsimp only
        rw [modify_bind, check_bind]
        have hput : R m (putResult runId stored t) := hR.trans _ _ _ (hR.same hsame) (hR.results t _)
        cases runChanges runId updates with
        | error fault => exact hput
        | ok changes =>
          have hinv : (putResult runId stored t).Inv := (quiet_putResult ..).inv (hsame.quiet.inv hm)
          have hrun : (putResult runId stored t).runs.get runId = some p.1 := by
            obtain ⟨_, rfl⟩ := hsame
            exact has_of_currentRevision hcur
          have hpatch := hR.patched hinv hrun changes (some p.2)
          have hinv' := inv_putRun hinv (Dict.has_of_get hrun)
            (Store.patched p.1 changes (some p.2))
          have hall := hR.recordAll hinv' hon (Store.patched p.1 changes (some p.2)) events
          refine hR.trans _ _ _ hput (hR.trans _ _ _ hpatch ?_)
          dsimp only
          rw [modify_bind, bind_eq]
          revert hall
          cases Store.recordAll o runId _ events _ with
          | mk r s => cases r <;> exact id

theorem beginIdempotentRequest (hR : LogFrame o new on R) (operation key fingerprint : String) :
    Within R (beginIdempotentRequest operation key fingerprint) := by
  refine within_bind hR.trans (within_check hR.refl _) fun identity => ?_
  refine within_bind hR.trans (within_get hR.refl) fun memory => ?_
  split
  · exact fun s => hR.idempotency s _
  · exact within_pure hR.refl _

theorem completeIdempotentRequest (hR : LogFrame o new on R) (operation key fingerprint : String) (statusCode : ℤ)
    (body : Value) (headers : Fields) :
    Within R (completeIdempotentRequest operation key fingerprint statusCode body headers) := by
  refine within_bind hR.trans (within_check hR.refl _) fun identity => ?_
  refine within_bind hR.trans (within_get hR.refl) fun memory => ?_
  refine within_bind hR.trans (fun s => hR.idempotency s _) fun _ => ?_
  split
  · exact within_raise hR.refl _
  split
  · exact within_pure hR.refl _
  refine within_bind hR.trans (within_check hR.refl _) fun response => ?_
  exact fun s => hR.idempotency s _

theorem abortIdempotentRequest (hR : LogFrame o new on R) (operation key fingerprint : String) :
    Within R (abortIdempotentRequest operation key fingerprint) := by
  refine within_bind hR.trans (within_check hR.refl _) fun identity => ?_
  refine within_bind hR.trans (within_get hR.refl) fun memory => ?_
  split
  · exact within_pure hR.refl _
  split
  · exact within_raise hR.refl _
  split
  · exact within_pure hR.refl _
  · exact fun s => hR.idempotency s _

/-- What every kind of write climbs, every method climbs but the one that clears the store. -/
theorem method (hR : LogFrame o new on R) (hm : m.Inv) {op : Op} (hop : op.creates new)
    (hon : ∀ runId, op.records = some runId → on runId) : R m (op.method o m).2 := by
  by_cases hp : op.plain
  · exact hR.toFrame.method o hp m
  cases op with
  | createRun value =>
    rw [Op.method, void_snd]
    exact hR.created hm value hop
  | updateRun runId updates expected bump =>
    rw [Op.method, void_snd]
    exact hR.updateRun hm runId updates expected bump
  | appendEvent runId value =>
    rw [Op.method, void_snd]
    exact hR.recorded hm (hon runId rfl) value
  | mutateRunWithEvent runId updates event expected bump =>
    rw [Op.method, void_snd]
    exact hR.mutateRunWithEvent hm (hon runId rfl) updates event expected bump
  | finalizeRunWithResult runId result updates events expected =>
    rw [Op.method, void_snd]
    exact hR.finalizeRunWithResult hm (hon runId rfl) result updates events expected
  | beginIdempotentRequest operation key fingerprint => exact hR.void (hR.beginIdempotentRequest operation key fingerprint) m
  | completeIdempotentRequest operation key fingerprint statusCode body headers =>
    exact hR.void (hR.completeIdempotentRequest operation key fingerprint statusCode body headers) m
  | abortIdempotentRequest operation key fingerprint => exact hR.void (hR.abortIdempotentRequest operation key fingerprint) m
  | reset => cases hop
  | _ => exact absurd rfl hp

end LogFrame

/-! ### The log of a run -/

def logOf (m : Memory) (runId : String) : List Fields := (m.events.get runId).getD []

/-- The events of a log carry the numbers from one on. -/
def Numbered (log : List Fields) : Prop :=
  ∀ (i : ℕ) (event : Fields), log[i]? = some event → event.get "seq" = some (.int (i + 1))

/-- The run is there, its events are numbered, and it names the last number. -/
structure Sequenced (runId : String) (m : Memory) : Prop where
  inv : m.Inv
  run : m.runs.has runId
  numbered : Numbered (logOf m runId)
  snapshot : ((m.runs.get runId).getD []).get "snapshot_seq" = some (.int (logOf m runId).length)

/-- A run goes on being in order, and its log only grows at the end. -/
def Extends (runId : String) (s t : Memory) : Prop :=
  Sequenced runId s → Sequenced runId t ∧ logOf s runId <+: logOf t runId

theorem numbered_append {log : List Fields} (h : Numbered log) {event : Fields}
    (he : event.get "seq" = some (.int (log.length + 1))) : Numbered (log ++ [event]) := by
  intro i event' hi
  rcases Nat.lt_trichotomy i log.length with hlt | rfl | hgt
  · rw [List.getElem?_append_left hlt] at hi
    exact h i event' hi
  · simp only [List.getElem?_append_right (Nat.le_refl _), Nat.sub_self, List.getElem?_cons_zero,
      Option.some.injEq] at hi
    rw [← hi, he]
  · rw [List.getElem?_eq_none (by simp; omega)] at hi
    cases hi

/-- What leaves the runs and the events alone leaves every log as it is. -/
theorem extends_of_eq {runId : String} {s t : Memory} (hinv : s.Inv → t.Inv) (hruns : t.runs = s.runs)
    (hevents : t.events = s.events) : Extends runId s t := by
  intro h
  have hlog : logOf t runId = logOf s runId := by rw [logOf, hevents, logOf]
  exact ⟨⟨hinv h.inv, hruns ▸ h.run, hlog ▸ h.numbered, by rw [hruns, hlog, h.snapshot]⟩, hlog ▸ List.prefix_rfl⟩

/-- The number of a new event is the one that follows its log. -/
theorem get_seq_stamped (runId : String) (event : Fields) (m : Memory) :
    (stamped runId event m).get "seq" = some (.int ((logOf m runId).length + 1)) := by
  simp only [stamped, Dict.setDefault]
  split
  · rw [Dict.get_set_self]
    rfl
  · rw [Dict.get_set, if_neg (by decide), Dict.get_set_self]
    rfl

theorem get_snapshot_patched (current changes : Fields) (revision : Option ℤ) :
    (patched current changes revision).get "snapshot_seq" = current.get "snapshot_seq" := by
  have hupdate : (current.update (((changes.erase "run_id").erase "run_revision").erase "snapshot_seq")).get
      "snapshot_seq" = current.get "snapshot_seq" := by
    refine Dict.get_update_of_get_eq_none ?_ _
    rw [Dict.get_erase, if_pos rfl]
  unfold patched
  split
  · rw [Dict.get_set, if_neg (by decide), hupdate]
  · exact hupdate

theorem Collection.Plain.quiet {c : Collection} (h : c.Plain) : c.Quiet := by
  cases h with
  | datasets => exact quiet_datasets
  | datasetVersions => exact quiet_datasetVersions
  | commands => exact quiet_commands
  | artifacts => exact quiet_artifacts
  | models => exact quiet_models
  | webhookEndpoints => exact quiet_webhookEndpoints
  | deletions => exact quiet_deletions
  | outputs runId => exact quiet_outputs runId
  | decisionPackets runId => exact quiet_decisionPackets runId
  | approvals runId => exact quiet_approvals runId
  | webhookDeliveries endpointId => exact quiet_webhookDeliveries endpointId

/-- An entry of another run takes nothing from this one. -/
theorem extends_of_ne {runId : String} {s t : Memory} (hinv : s.Inv → t.Inv)
    (hrun : t.runs.get runId = s.runs.get runId) (hlog : logOf t runId = logOf s runId) : Extends runId s t := by
  intro h
  refine ⟨⟨hinv h.inv, ?_, hlog ▸ h.numbered, by rw [hrun, hlog, h.snapshot]⟩, hlog ▸ List.prefix_rfl⟩
  rw [Dict.has, hrun]
  exact h.run

theorem extends_created {m : Memory} (hm : m.Inv) (runId : String) (value : Value) :
    Extends runId m (createRun value m).2 := by
  intro h
  have hinv := inv_createRun hm value
  cases hcreate : createRun value m with
  | mk r s =>
    rw [hcreate] at hinv
    cases r with
    | error fault =>
      obtain ⟨_, rfl⟩ := clean_createRun value m fault s hcreate
      exact extends_of_eq (fun _ => hinv) rfl rfl h
    | ok created =>
      obtain ⟨item, -, hcreate⟩ := check_bind_ok hcreate
      obtain ⟨created', s₁, h₁, hcreate⟩ := bind_eq_ok hcreate
      obtain ⟨id, t, hid, ⟨counters, rfl⟩, hfree, rfl⟩ := createLocked_eq_ok h₁
      cases hcreate
      have hne : runId ≠ id := by
        rintro rfl
        have hrun := h.run
        rw [Dict.has, show m.runs.get runId = none from hfree] at hrun
        cases hrun
      refine extends_of_ne (fun _ => hinv) ?_ ?_ h
      · simp only [Collection.runs, Dict.get_set, if_neg hne]
      · simp only [logOf, hid, Option.getD_some, Collection.runs, Dict.get_set, if_neg hne]

theorem extends_patched {m : Memory} (runId : String) {runId' : String} {current : Fields}
    (hrun : m.runs.get runId' = some current) (changes : Fields) (revision : Option ℤ) :
    Extends runId m (putRun runId' (patched current changes revision) m) := by
  intro h
  have hinv := inv_putRun h.inv (Dict.has_of_get hrun) (patched current changes revision)
  by_cases hid : runId = runId'
  · subst hid
    refine ⟨⟨hinv, ?_, h.numbered, ?_⟩, List.prefix_rfl⟩
    · rw [putRun, Dict.has_set, decide_eq_true rfl, Bool.true_or]
    · have hsnapshot := h.snapshot
      rw [hrun] at hsnapshot
      rw [putRun, Dict.get_set_self, Option.getD_some, get_snapshot_patched]
      exact hsnapshot
  · refine extends_of_ne (fun _ => hinv) ?_ rfl h
    rw [putRun, Dict.get_set, if_neg hid]

theorem extends_recorded (o : SetOrder) {m : Memory} (hm : m.Inv) (runId runId' : String) (value : Value) :
    Extends runId m (recordEvent o runId' value m).2 := by
  have hinv := inv_recordEvent o runId' value hm
  rcases recordEvent_cases o runId' value hm with ⟨_, -, h⟩ | ⟨_, -, h⟩ | ⟨event, t, -, ⟨counters, rfl⟩, hpost⟩
  · rw [h]
    exact extends_of_eq id rfl rfl
  · rw [h]
    exact extends_of_eq id rfl rfl
  · intro hs
    have hruns := hpost.runs
    have hevents := hpost.events
    have hlog : logOf (recordEvent o runId' value m).2 runId
        = if runId = runId' then logOf m runId ++ [stamped runId' event m] else logOf m runId := by
      simp only [logOf, hevents, pushEvent, Dict.get_set]
      split
      · rename_i hid
        rw [hid]
        rfl
      · rfl
    by_cases hid : runId = runId'
    · subst hid
      rw [if_pos rfl] at hlog
      refine ⟨⟨hinv, ?_, ?_, ?_⟩, hlog ▸ List.prefix_append _ _⟩
      · rw [hruns, pushEvent, Dict.has_set, decide_eq_true rfl, Bool.true_or]
      · rw [hlog]
        exact numbered_append hs.numbered (get_seq_stamped runId event m)
      · rw [hlog, hruns, pushEvent, Dict.get_set_self, Option.getD_some, Dict.get_set_self, List.length_append]
        rfl
    · rw [if_neg hid] at hlog
      refine extends_of_ne (fun _ => hinv) ?_ hlog hs
      rw [hruns, pushEvent, Dict.get_set, if_neg hid]

theorem logFrame_extends (o : SetOrder) (runId : String) : LogFrame o (fun _ => true) (fun _ => True) (Extends runId) where
  refl s h := ⟨h, List.prefix_rfl⟩
  trans s t u hst htu h := by
    obtain ⟨ht, hpre⟩ := hst h
    obtain ⟨hu, hpre'⟩ := htu ht
    exact ⟨hu, hpre.trans hpre'⟩
  same hsame := by
    have hquiet := hsame.quiet
    obtain ⟨_, rfl⟩ := hsame
    exact extends_of_eq hquiet.inv rfl rfl
  plain hc m d := by
    have hquiet := hc.quiet m d
    refine extends_of_eq hquiet.inv ?_ hquiet.events
    cases hc <;> rfl
  results m d := extends_of_eq (fun h => ⟨h.approvals, h.events, h.index⟩) rfl rfl
  idempotency m d := extends_of_eq (fun h => ⟨h.approvals, h.events, h.index⟩) rfl rfl
  created hm value _ := extends_created hm runId value
  patched _ _ _ hrun changes revision := extends_patched runId hrun changes revision
  recorded hm runId' _ value := extends_recorded o hm runId runId' value

/-! ### Logs that rest and logs that grow -/

/-- The run stays, with its log as it is. -/
def Rests (runId : String) (s t : Memory) : Prop :=
  s.runs.has runId → t.runs.has runId ∧ logOf t runId = logOf s runId

/-- The run stays, and what its log had it keeps. -/
def Grows (runId : String) (s t : Memory) : Prop :=
  s.runs.has runId → t.runs.has runId ∧ logOf s runId <+: logOf t runId

theorem Rests.grows {runId : String} {s t : Memory} (h : Rests runId s t) : Grows runId s t := fun hs =>
  ⟨(h hs).1, (h hs).2 ▸ List.prefix_rfl⟩

theorem rests_of_eq {runId : String} {s t : Memory} (hruns : t.runs = s.runs) (hevents : t.events = s.events) :
    Rests runId s t := fun h => ⟨hruns ▸ h, by rw [logOf, hevents, logOf]⟩

theorem rests_created (runId : String) (value : Value) (m : Memory) : Rests runId m (createRun value m).2 := by
  intro h
  cases hcreate : createRun value m with
  | mk r s =>
    cases r with
    | error fault =>
      obtain ⟨_, rfl⟩ := clean_createRun value m fault s hcreate
      exact ⟨h, rfl⟩
    | ok created =>
      obtain ⟨item, -, hcreate⟩ := check_bind_ok hcreate
      obtain ⟨created', s₁, h₁, hcreate⟩ := bind_eq_ok hcreate
      obtain ⟨id, t, hid, ⟨counters, rfl⟩, hfree, rfl⟩ := createLocked_eq_ok h₁
      cases hcreate
      have hne : runId ≠ id := by
        rintro rfl
        rw [Dict.has, show m.runs.get runId = none from hfree] at h
        cases h
      simp only [hid, Option.getD_some, Collection.runs]
      refine ⟨?_, ?_⟩
      · rw [Dict.has_set, h, Bool.or_true]
      · simp only [logOf, Dict.get_set, if_neg hne]

theorem rests_putRun (runId runId' : String) (run : Fields) (m : Memory) : Rests runId m (putRun runId' run m) :=
  fun h => ⟨by rw [putRun, Dict.has_set, h, Bool.or_true], rfl⟩

/-- An event goes to the end of the log of its run. -/
theorem grows_recorded (o : SetOrder) {m : Memory} (hm : m.Inv) (runId runId' : String) (value : Value) :
    Grows runId m (recordEvent o runId' value m).2 ∧
      (runId' ≠ runId → Rests runId m (recordEvent o runId' value m).2) := by
  rcases recordEvent_cases o runId' value hm with ⟨_, -, h⟩ | ⟨_, -, h⟩ | ⟨event, t, -, ⟨counters, rfl⟩, hpost⟩
  · rw [h]
    exact ⟨(rests_of_eq rfl rfl).grows, fun _ => rests_of_eq rfl rfl⟩
  · rw [h]
    exact ⟨(rests_of_eq rfl rfl).grows, fun _ => rests_of_eq rfl rfl⟩
  · have hruns : m.runs.has runId → (recordEvent o runId' value m).2.runs.has runId := fun hs => by
      rw [hpost.runs, pushEvent, Dict.has_set, hs, Bool.or_true]
    refine ⟨fun hs => ⟨hruns hs, ?_⟩, fun hne hs => ⟨hruns hs, ?_⟩⟩
    · simp only [logOf, hpost.events, pushEvent, Dict.get_set]
      split
      · rename_i hid
        rw [hid]
        exact List.prefix_append _ _
      · exact List.prefix_rfl
    · simp only [logOf, hpost.events, pushEvent, Dict.get_set, if_neg (Ne.symm hne)]

theorem logFrame_rests (o : SetOrder) (runId : String) :
    LogFrame o (fun _ => true) (· ≠ runId) (Rests runId) where
  refl s h := ⟨h, rfl⟩
  trans s t u hst htu h := ⟨(htu (hst h).1).1, (htu (hst h).1).2.trans (hst h).2⟩
  same hsame := by
    obtain ⟨_, rfl⟩ := hsame
    exact rests_of_eq rfl rfl
  plain hc m d := rests_of_eq (by cases hc <;> rfl) (hc.quiet m d).events
  results m d := rests_of_eq rfl rfl
  idempotency m d := rests_of_eq rfl rfl
  created _ value _ := rests_created runId value _
  patched _ _ _ _ _ _ := rests_putRun runId _ _ _
  recorded hm _ hne value := (grows_recorded o hm runId _ value).2 hne

theorem logFrame_grows (o : SetOrder) (runId : String) :
    LogFrame o (fun _ => true) (fun _ => True) (Grows runId) where
  refl _ h := ⟨h, List.prefix_rfl⟩
  trans _ _ _ hst htu h := ⟨(htu (hst h).1).1, (hst h).2.trans (htu (hst h).1).2⟩
  same hsame := ((logFrame_rests o runId).same hsame).grows
  plain hc m d := ((logFrame_rests o runId).plain hc m d).grows
  results m d := ((logFrame_rests o runId).results m d).grows
  idempotency m d := ((logFrame_rests o runId).idempotency m d).grows
  created hm value hv := ((logFrame_rests o runId).created hm value hv).grows
  patched hm _ _ hrun changes revision := ((logFrame_rests o runId).patched hm hrun changes revision).grows
  recorded hm _ _ value := (grows_recorded o hm runId _ value).1

/-! ### In the durable store -/

/-- The mutations and readings of one process. -/
def Event.within (new : Value → Bool) : Event → Bool
  | .call _ op => op.creates new
  | .reopen => false
  | _ => true

theorem apply_cases (o : SetOrder) (disk : Bool) (s : SqliteStore) {op : Op} (h : op ≠ .reset) :
    op.apply o disk s = durableMutation (op.method o) disk s ∨ (op.apply o disk s).2.memory = s.memory := by
  cases op with
  | reset => exact absurd rfl h
  | job r op =>
    refine .inr ?_
    simp only [Op.apply]
    split
    · split <;> rfl
    · rfl
  | _ => exact .inl rfl

/-- What the method of a call climbs, every step of the process climbs: a checkpoint that
fails takes the memory back to where it was. -/
theorem step_climbs {o : SetOrder} {R : Memory → Memory → Prop} (hrefl : ∀ m, R m m) {s : SqliteStore}
    (hs : s.memory.Inv) {e : Event} (he : e ≠ .reopen)
    (hcall : ∀ disk op, e = .call disk op → op ≠ .reset ∧ R s.memory (op.method o s.memory).2)
    (happrovals : ∀ runId, R s.memory (openApprovals runId s.memory))
    (hdeliveries : ∀ endpointId, R s.memory (openDeliveries endpointId s.memory)) :
    R s.memory (s.step o e).memory := by
  cases e with
  | call disk op =>
    obtain ⟨hop, hmethod⟩ := hcall disk op rfl
    have hmutation : R s.memory (durableMutation (op.method o) disk s).2.memory := by
      unfold durableMutation
      cases hm : op.method o s.memory with
      | mk r memory =>
        rw [hm] at hmethod
        cases r with
        | error fault => exact hmethod
        | ok _ =>
          dsimp only
          split
          · rw [restore_eq hs]
            exact hrefl _
          · split
            · exact hmethod
            · rw [restore_eq hs]
              exact hrefl _
    show R s.memory (op.apply o disk s).2.memory
    rcases apply_cases o disk s hop with happly | happly
    · rw [happly]
      exact hmutation
    · rw [happly]
      exact hrefl _
  | readApprovals runId =>
    simp only [SqliteStore.step]
    split
    · exact happrovals runId
    · exact hrefl _
  | readDeliveries endpointId =>
    simp only [SqliteStore.step]
    split
    · exact hdeliveries endpointId
    · exact hrefl _
  | reopen => exact absurd rfl he

/-- What every method climbs, every step of the process climbs. -/
theorem LogFrame.step {o : SetOrder} {new : Value → Bool} {on : String → Prop} {R : Memory → Memory → Prop}
    (hR : LogFrame o new on R) {s : SqliteStore} (hs : s.memory.Inv) {e : Event} (he : e.within new)
    (hon : ∀ disk op runId, e = .call disk op → op.records = some runId → on runId) : R s.memory (s.step o e).memory := by
  have hcall : ∀ disk op, e = .call disk op → op ≠ .reset ∧ R s.memory (op.method o s.memory).2 := by
    rintro disk op rfl
    refine ⟨fun h => ?_, hR.method hs he fun runId => hon disk op runId rfl⟩
    subst h
    cases he
  refine step_climbs hR.refl hs (fun h => ?_) hcall (hR.openApprovals · _) (hR.openDeliveries · _)
  subst h
  cases he

/-- A property of the memory and of what a restart restores. -/
structure SqliteStore.Holds (P : Memory → Prop) (s : SqliteStore) : Prop where
  memory : P s.memory
  checkpoint : P (restore s.checkpoint)

/-- What the methods and the checkpoints keep, every step keeps. -/
theorem SqliteStore.Holds.step {o : SetOrder} {P : Memory → Prop} {s : SqliteStore} (hs : s.Holds P)
    (hinv : s.memory.Inv) {e : Event} (hempty : P .empty)
    (hrestore : ∀ {m snapshot}, P m → serialise m = some snapshot → P (restore snapshot))
    (hcall : ∀ disk op, e = .call disk op → op ≠ .reset → P (op.method o s.memory).2)
    (happrovals : ∀ runId, P (openApprovals runId s.memory))
    (hdeliveries : ∀ endpointId, P (openDeliveries endpointId s.memory)) : (s.step o e).Holds P := by
  cases e with
  | call disk op =>
    have hmethod : P (op.method o s.memory).2 := by
      by_cases hreset : op = .reset
      · rw [hreset]
        exact hempty
      · exact hcall disk op rfl hreset
    have hback : P (restore s.memory) := by
      rw [restore_eq hinv]
      exact hs.memory
    have hmutation : (durableMutation (op.method o) disk s).2.Holds P := by
      unfold durableMutation
      cases h : op.method o s.memory with
      | mk r memory =>
        rw [h] at hmethod
        cases r with
        | error fault => exact ⟨hmethod, hs.checkpoint⟩
        | ok _ =>
          dsimp only
          cases hser : serialise memory with
          | none => exact ⟨hback, hs.checkpoint⟩
          | some snapshot =>
            cases disk with
            | true => exact ⟨hmethod, hrestore hmethod hser⟩
            | false => exact ⟨hback, hs.checkpoint⟩
    show (op.apply o disk s).2.Holds P
    cases op with
    | reset =>
      simp only [Op.apply]
      revert hmutation
      cases durableMutation (Op.method o .reset) disk s with
      | mk r s' =>
        cases r with
        | error raised => exact id
        | ok _ => exact fun h => ⟨h.memory, h.checkpoint⟩
    | job r op =>
      simp only [Op.apply]
      split
      · split <;> exact ⟨hs.memory, hs.checkpoint⟩
      · exact hs
    | _ => exact hmutation
  | readApprovals runId =>
    simp only [SqliteStore.step]
    split
    · exact ⟨happrovals runId, hs.checkpoint⟩
    · exact hs
  | readDeliveries endpointId =>
    simp only [SqliteStore.step]
    split
    · exact ⟨hdeliveries endpointId, hs.checkpoint⟩
    · exact hs
  | reopen => exact ⟨hs.checkpoint, hs.checkpoint⟩

/-! ### Every run in order -/

/-- A run that is created with no events behind it, as the services create their runs. -/
def startsEmpty : Value → Bool
  | .dict fields =>
    match Dict.get fields "snapshot_seq" with
    | none | some (.int 0) => true
    | _ => false
  | _ => true

/-- Every run is in order. -/
structure Memory.Orderly (m : Memory) : Prop where
  inv : m.Inv
  runs : ∀ runId, m.runs.has runId → Sequenced runId m

theorem orderly_empty : Memory.empty.Orderly := ⟨inv_empty, fun _ h => by cases h⟩

theorem orderly_of_extends {s t : Memory} (hinv : s.Inv → t.Inv) (hruns : ∀ r, t.runs.has r → s.runs.has r)
    (hext : ∀ r, Extends r s t) (hs : s.Orderly) : t.Orderly :=
  ⟨hinv hs.inv, fun r hr => (hext r (hs.runs r (hruns r hr))).1⟩

theorem has_recordEvent (o : SetOrder) (runId : String) (value : Value) {m : Memory} (hm : m.Inv) (r : String)
    (h : (recordEvent o runId value m).2.runs.has r) : m.runs.has r := by
  rcases recordEvent_cases o runId value hm with ⟨_, -, h'⟩ | ⟨_, -, h'⟩ | ⟨event, t, hp, ⟨_, rfl⟩, hpost⟩
  · rwa [h'] at h
  · rwa [h'] at h
  · rw [hpost.runs, pushEvent, Dict.has_set, Bool.or_eq_true, decide_eq_true_eq] at h
    rcases h with rfl | h
    · exact has_of_prepareEvent hp
    · exact h

theorem mapping_eq_ok {name : String} {value : Value} {fields : Fields} (h : mapping name value = .ok fields) :
    value = .dict fields := by
  cases value with
  | dict fields' =>
    simp only [mapping] at h
    split at h
    · cases h
      rfl
    · cases h
  | _ => cases h

/-- A creation changes nothing of its item but the id. -/
theorem get_of_createLocked {c : Collection} {item item' : Fields} {idField kind resource : String}
    {s s' : Memory} (h : createLocked c (.dict item) idField kind resource [] s = (.ok item', s')) {k : String}
    (hk : k ≠ idField) : item'.get k = item.get k := by
  obtain ⟨item₁, hmap, h⟩ := check_bind_ok h
  obtain ⟨item₂, hfix, h⟩ := check_bind_ok h
  obtain ⟨item₃, t, hid, h⟩ := bind_eq_ok h
  obtain ⟨id, -, h⟩ := check_bind_ok h
  have hitem : item' = item₃ := by
    rw [get_bind] at h
    split at h
    · cases h
    · cases h
      rfl
  have h₁ : item₁ = item := by
    cases mapping_eq_ok hmap
    rfl
  cases hfix
  rw [hitem, ← h₁]
  have hnew : ∀ id, (item₁.set idField (.str id)).get k = item₁.get k := fun id => by
    rw [Dict.get_set, if_neg hk]
  unfold withId at hid
  cases hget : item₁.get idField with
  | none =>
    rw [hget] at hid
    cases hid
    exact hnew _
  | some value =>
    rw [hget] at hid
    cases value with
    | null =>
      cases hid
      exact hnew _
    | _ =>
      cases hid
      rfl

theorem get_snapshot_new {fields : Fields} (h : startsEmpty (.dict fields)) :
    ((fields.setDefault "run_revision" (.int 1)).setDefault "snapshot_seq" (.int 0)).get "snapshot_seq"
      = some (.int 0) := by
  have hrevision : (fields.setDefault "run_revision" (.int 1)).get "snapshot_seq" = fields.get "snapshot_seq" := by
    unfold Dict.setDefault
    split
    · rfl
    · rw [Dict.get_set, if_neg (by decide)]
  by_cases hhas : (fields.setDefault "run_revision" (.int 1)).has "snapshot_seq"
  · rw [Dict.setDefault_of_has hhas, hrevision]
    rw [Dict.has, hrevision] at hhas
    simp only [startsEmpty] at h
    split at h
    · rename_i hnone
      rw [hnone] at hhas
      cases hhas
    · assumption
    · cases h
  · rw [Dict.setDefault, if_neg hhas, Dict.get_set_self]

/-- The entry of a new run and its empty log. -/
theorem orderly_created {m : Memory} (hm : m.Orderly) {value : Value} (hv : startsEmpty value) :
    (createRun value m).2.Orderly := by
  have hinv := inv_createRun hm.inv value
  have hext := extends_created hm.inv
  refine ⟨hinv, fun r hr => ?_⟩
  by_cases hold : m.runs.has r
  · exact (hext r value (hm.runs r hold)).1
  cases hcreate : createRun value m with
  | mk result s =>
    rw [hcreate] at hinv hr
    cases result with
    | error fault =>
      obtain ⟨_, rfl⟩ := clean_createRun value m fault s hcreate
      exact absurd hr hold
    | ok created =>
      obtain ⟨item, hitem, hcreate⟩ := check_bind_ok hcreate
      obtain ⟨created', s₁, h₁, hcreate⟩ := bind_eq_ok hcreate
      obtain ⟨id, t, hid, ⟨counters, rfl⟩, hfree, rfl⟩ := createLocked_eq_ok h₁
      cases hcreate
      have hsnapshot : created.get "snapshot_seq" = some (.int 0) := by
        rw [get_of_createLocked h₁ (by decide)]
        cases mapping_eq_ok hitem
        exact get_snapshot_new hv
      have hr' : r = id := by
        simp only [Collection.runs, Dict.has_set, Bool.or_eq_true, decide_eq_true_eq] at hr
        exact hr.resolve_right hold
      subst hr'
      simp only [hid, Option.getD_some, Collection.runs] at hinv ⊢
      refine ⟨hinv, ?_, ?_, ?_⟩
      · rw [Dict.has_set, decide_eq_true rfl, Bool.true_or]
      · simp [logOf, Numbered]
      · simp [logOf, hsnapshot]

theorem logFrame_orderly (o : SetOrder) :
    LogFrame o startsEmpty (fun _ => True) (fun s t => s.Orderly → t.Orderly) where
  refl s h := h
  trans s t u hst htu h := htu (hst h)
  same hsame := by
    have hext := fun r => (logFrame_extends (inOrder) r).same hsame
    have hquiet := hsame.quiet
    exact orderly_of_extends hquiet.inv hquiet.runs hext
  plain hc m d := by
    have hquiet := hc.quiet m d
    exact orderly_of_extends hquiet.inv hquiet.runs fun r => (logFrame_extends inOrder r).plain hc m d
  results m d := orderly_of_extends (fun h => ⟨h.approvals, h.events, h.index⟩) (fun _ h => h)
    fun r => (logFrame_extends inOrder r).results m d
  idempotency m d := orderly_of_extends (fun h => ⟨h.approvals, h.events, h.index⟩) (fun _ h => h)
    fun r => (logFrame_extends inOrder r).idempotency m d
  created _ _ hv h := orderly_created h hv
  patched hm runId current hrun changes revision := by
    have hhas := Dict.has_of_get hrun
    refine orderly_of_extends (fun _ => inv_putRun hm hhas _) (fun r hr => ?_)
      fun r => extends_patched r hrun changes revision
    rw [putRun, Dict.has_set, Bool.or_eq_true, decide_eq_true_eq] at hr
    rcases hr with rfl | hr
    · exact hhas
    · exact hr
  recorded hm runId _ value := orderly_of_extends (fun _ => inv_recordEvent o runId value hm)
    (has_recordEvent o runId value hm) fun r => extends_recorded o hm r runId value

/-! ### Across a restart -/

theorem get_encodeFields {fields encoded : Fields} (h : Value.encodeFields fields = some encoded) (k : String) :
    (fields.get k).bind Value.encode = encoded.get k := by
  have hget := Dict.get_written h k
  cases hold : fields.get k with
  | none =>
    rw [hold] at hget
    exact (Option.map_eq_none_iff.mp hget.symm).symm
  | some v =>
    rw [hold] at hget
    obtain ⟨w, hw, heq⟩ := Option.map_eq_some_iff.mp hget.symm
    rw [hw]
    exact heq.symm

theorem logOf_serialised {m snapshot : Memory} (h : serialise m = some snapshot) (runId : String) :
    (logOf m runId).mapM Value.encodeFields = some (logOf snapshot runId) := by
  obtain ⟨-, hevents, -⟩ := serialise_eq_some h
  have hlog := Dict.get_written hevents runId
  unfold logOf
  cases hget : m.events.get runId with
  | none =>
    rw [hget] at hlog
    have hnone : snapshot.events.get runId = none := by simpa using hlog.symm
    rw [hnone]
    rfl
  | some log =>
    rw [hget] at hlog
    obtain ⟨log', hlog', heq⟩ := Option.map_eq_some_iff.mp hlog.symm
    rw [hlog']
    exact heq.symm

theorem forall₂_of_mapM {α β : Type} {f : α → Option β} {as : List α} {bs : List β} (h : as.mapM f = some bs) :
    List.Forall₂ (fun a b => f a = some b) as bs := by
  induction as generalizing bs with
  | nil => cases h; exact .nil
  | cons a as ih =>
    rw [List.mapM_cons] at h
    obtain ⟨b, hb, h⟩ := Option.bind_eq_some_iff.mp h
    obtain ⟨rest, hrest, h⟩ := Option.bind_eq_some_iff.mp h
    cases h
    exact .cons hb (ih hrest)

theorem numbered_encoded {log log' : List Fields} (hn : Numbered log)
    (h : log.mapM Value.encodeFields = some log') : Numbered log' := by
  have hall := forall₂_of_mapM h
  intro i event' hi
  obtain ⟨hi', rfl⟩ := List.getElem?_eq_some_iff.mp hi
  have hlen : i < log.length := hall.length_eq ▸ hi'
  have hevent : Value.encodeFields log[i] = some log'[i] := hall.get hlen hi'
  have hseq := get_encodeFields hevent "seq"
  rw [hn i _ (List.getElem?_eq_getElem hlen)] at hseq
  exact hseq.symm

/-- What a checkpoint of a store in order restores is in order. -/
theorem orderly_restore {m snapshot : Memory} (hm : m.Orderly) (h : serialise m = some snapshot) :
    (restore snapshot).Orderly := by
  have hinv := inv_restore hm.inv h
  refine ⟨hinv, fun r hr => ?_⟩
  obtain ⟨hruns, -, -⟩ := serialise_eq_some h
  have hrun : m.runs.has r := by
    rw [← Dict.has_written hruns]
    exact hr
  obtain ⟨-, -, hnumbered, hsnapshot⟩ := hm.runs r hrun
  have hlog := logOf_serialised h r
  have hlen := (forall₂_of_mapM hlog).length_eq
  refine ⟨hinv, hr, numbered_encoded hnumbered hlog, ?_⟩
  show ((snapshot.runs.get r).getD []).get "snapshot_seq" = some (.int (logOf snapshot r).length)
  obtain ⟨run, hget⟩ := Option.isSome_iff_exists.mp hrun
  have hencoded := Dict.get_written hruns r
  rw [hget] at hencoded
  obtain ⟨run', hrun', heq⟩ := Option.map_eq_some_iff.mp hencoded.symm
  rw [hget, Option.getD_some] at hsnapshot
  rw [hrun', Option.getD_some, ← get_encodeFields heq.symm "snapshot_seq", hsnapshot, ← hlen]
  rfl

/-- A step of a history in which runs are created with no events behind them. -/
def Event.orderly : Event → Bool
  | .call _ (.createRun value) => startsEmpty value
  | _ => true

/-- Every run is in order, in memory and in what a restart restores. -/
structure SqliteStore.Orderly (s : SqliteStore) : Prop where
  memory : s.memory.Orderly
  checkpoint : (restore s.checkpoint).Orderly

theorem orderly_init : SqliteStore.init.Orderly := ⟨orderly_empty, orderly_empty⟩

theorem orderly_step (o : SetOrder) {s : SqliteStore} (hs : s.Orderly) {e : Event} (he : e.orderly) :
    (s.step o e).Orderly := by
  have hframe := logFrame_orderly o
  have hcall : ∀ disk op, e = .call disk op → op ≠ .reset → (op.method o s.memory).2.Orderly := by
    rintro disk op rfl hreset
    refine hframe.method hs.memory.inv ?_ (fun _ _ => trivial) hs.memory
    cases op with
    | createRun value => exact he
    | reset => exact absurd rfl hreset
    | _ => rfl
  have hholds : s.Holds Memory.Orderly := ⟨hs.memory, hs.checkpoint⟩
  obtain ⟨hmemory, hcheckpoint⟩ := hholds.step hs.memory.inv orderly_empty orderly_restore hcall
    (fun runId => hframe.openApprovals runId _ hs.memory) fun endpointId => hframe.openDeliveries endpointId _ hs.memory
  exact ⟨hmemory, hcheckpoint⟩

end AutomlApi.Store
