import AutomlApi.Store.Invariant

/-! Operations that write only after their last check: when one of them raises, the
memory is as before the call, but for the id counters. -/

namespace AutomlApi.Store

open Act

/-- A program that raises only before it writes, and leaves runs and events alone. -/
structure Tidy {α : Type} (m : StoreM α) : Prop where
  clean : Clean Same m
  quiet : Within Quiet m

section Rules

variable {α β : Type} {m : StoreM α} {k : α → StoreM β}

/-- A part that writes nothing but id counters. -/
theorem tidy_bind (hm : Within Same m) (hk : ∀ a, Tidy (k a)) : Tidy (m >>= k) :=
  ⟨clean_bind Same.trans hm fun a => (hk a).clean,
    within_bind Quiet.trans (fun s => (hm s).quiet) fun a => (hk a).quiet⟩

theorem tidy_check {r : Except Fault α} (hk : ∀ a, Tidy (k a)) : Tidy (check r >>= k) :=
  tidy_bind (within_check Same.refl r) hk

theorem tidy_get {k : Memory → StoreM β} (hk : ∀ memory, Tidy (k memory)) : Tidy (get >>= k) :=
  tidy_bind (within_get Same.refl) hk

theorem tidy_raise (fault : Fault) : Tidy (raise fault : StoreM α) :=
  ⟨(within_raise Same.refl fault).clean, within_raise Quiet.refl fault⟩

theorem tidy_pure (a : α) : Tidy (pure a : StoreM α) := ⟨(total_pure a).clean, within_pure Quiet.refl a⟩

/-- A write that nothing follows. -/
theorem tidy_write {f : Memory → Memory} (hf : ∀ s, Quiet s (f s)) (a : α) :
    Tidy (modify f >>= fun _ => pure a : StoreM α) :=
  ⟨(total_bind (total_modify f) fun _ => total_pure a).clean, hf⟩

end Rules

theorem within_newIdLocked (kind : String) : Within Same (newIdLocked kind) := fun _ => ⟨_, rfl⟩

theorem within_withId (idField kind : String) (item : Fields) : Within Same (withId idField kind item) := by
  unfold withId
  split
  · exact fun _ => ⟨_, rfl⟩
  · exact fun _ => ⟨_, rfl⟩
  · exact within_pure Same.refl item

theorem within_requireRun (runId : String) : Within Same (requireRun runId) := by
  refine within_bind Same.trans (within_get Same.refl) fun memory => ?_
  split
  · exact within_pure Same.refl ()
  · exact within_raise Same.refl _

theorem within_requireKey (key : String) (d : Memory → Dict String (Dict String Fields)) :
    Within Same (requireKey key d) := by
  refine within_bind Same.trans (within_get Same.refl) fun memory => ?_
  split
  · exact within_pure Same.refl ()
  · exact within_raise Same.refl _

theorem within_requireRevision (runId : String) (expected : Option ℤ) :
    Within Same (requireRevision runId expected) :=
  within_bind Same.trans (within_get Same.refl) fun _ => within_check Same.refl _

/-! ### One resource -/

/-- A collection that is none of the runs and keeps the dictionaries of approvals. -/
def Collection.Quiet (c : Collection) : Prop := ∀ m d, Store.Quiet m (c.put m d)

namespace Collection

theorem quiet_datasets : datasets.Quiet := fun _ _ => ⟨fun _ h => h, fun _ h => h, rfl, rfl⟩
theorem quiet_datasetVersions : datasetVersions.Quiet := fun _ _ => ⟨fun _ h => h, fun _ h => h, rfl, rfl⟩
theorem quiet_commands : commands.Quiet := fun _ _ => ⟨fun _ h => h, fun _ h => h, rfl, rfl⟩
theorem quiet_artifacts : artifacts.Quiet := fun _ _ => ⟨fun _ h => h, fun _ h => h, rfl, rfl⟩
theorem quiet_models : models.Quiet := fun _ _ => ⟨fun _ h => h, fun _ h => h, rfl, rfl⟩
theorem quiet_webhookEndpoints : webhookEndpoints.Quiet := fun _ _ => ⟨fun _ h => h, fun _ h => h, rfl, rfl⟩
theorem quiet_deletions : deletions.Quiet := fun _ _ => ⟨fun _ h => h, fun _ h => h, rfl, rfl⟩

theorem quiet_outputs (runId : String) : (outputs runId).Quiet := fun _ _ =>
  ⟨fun _ h => h, fun _ h => h, rfl, rfl⟩

theorem quiet_decisionPackets (runId : String) : (decisionPackets runId).Quiet := fun _ _ =>
  ⟨fun _ h => h, fun _ h => h, rfl, rfl⟩

theorem quiet_webhookDeliveries (endpointId : String) : (webhookDeliveries endpointId).Quiet := fun _ _ =>
  ⟨fun _ h => h, fun _ h => h, rfl, rfl⟩

theorem quiet_approvals (runId : String) : (approvals runId).Quiet := fun m d =>
  ⟨fun _ h => h, fun r h => by simp only [approvals, Dict.has_set, h, Bool.or_true], rfl, rfl⟩

end Collection

theorem clean_insertLocked (c : Collection) (item : Fields) (idField kind resource : String)
    (fixed : Fields) : Clean Same (insertLocked c item idField kind resource fixed) := by
  refine clean_bind Same.trans (within_check Same.refl _) fun item => ?_
  refine clean_bind Same.trans (within_withId idField kind item) fun item => ?_
  refine clean_bind Same.trans (within_check Same.refl _) fun id => ?_
  refine clean_bind Same.trans (within_get Same.refl) fun memory => ?_
  split
  · exact (within_raise Same.refl _).clean
  · exact (total_bind (total_modify _) fun _ => total_pure item).clean

/-- What an insertion does is within any order that holds the counters and the write. -/
theorem within_insertLocked {R : Memory → Memory → Prop} (hrefl : ∀ s, R s s)
    (htrans : ∀ s t u, R s t → R t u → R s u) (hsame : ∀ {s t}, Same s t → R s t) {c : Collection}
    (hc : ∀ m d, R m (c.put m d)) (item : Fields) (idField kind resource : String) (fixed : Fields) :
    Within R (insertLocked c item idField kind resource fixed) := by
  refine within_bind htrans (within_check hrefl _) fun item => ?_
  refine within_bind htrans (fun s => hsame (within_withId idField kind item s)) fun item => ?_
  refine within_bind htrans (within_check hrefl _) fun id => ?_
  refine within_bind htrans (within_get hrefl) fun memory => ?_
  split
  · exact within_raise hrefl _
  · exact fun s => hc s _

theorem quiet_insertLocked {c : Collection} (hc : c.Quiet) (item : Fields) (idField kind resource : String)
    (fixed : Fields) : Within Quiet (insertLocked c item idField kind resource fixed) :=
  within_insertLocked Quiet.refl Quiet.trans Same.quiet hc item idField kind resource fixed

theorem clean_createLocked (c : Collection) (value : Value) (idField kind resource : String) (fixed : Fields) :
    Clean Same (createLocked c value idField kind resource fixed) :=
  clean_bind Same.trans (within_check Same.refl _) fun item =>
    clean_insertLocked c item idField kind resource fixed

theorem tidy_createLocked {c : Collection} (hc : c.Quiet) (value : Value) (idField kind resource : String)
    (fixed : Fields) : Tidy (createLocked c value idField kind resource fixed) :=
  ⟨clean_createLocked c value idField kind resource fixed,
    within_bind Quiet.trans (within_check Quiet.refl _) fun item =>
      quiet_insertLocked hc item idField kind resource fixed⟩

theorem tidy_updateLocked {c : Collection} (hc : c.Quiet) (id : String) (updates : Value)
    (idField resource : String) : Tidy (updateLocked c id updates idField resource) := by
  refine tidy_get fun memory => ?_
  split
  · exact tidy_raise _
  refine tidy_check fun changes => ?_
  split
  · exact tidy_raise _
  · exact tidy_write (fun s => hc s _) _

theorem tidy_newId (kind : String) : Tidy (newId kind) := by
  unfold newId
  dsimp only
  split
  · exact tidy_raise _
  · exact ⟨(within_newIdLocked _).clean, fun s => (within_newIdLocked _ s).quiet⟩

theorem tidy_createDatasetVersion (datasetId : String) (value : Value) :
    Tidy (createDatasetVersion datasetId value) := by
  refine tidy_get fun memory => ?_
  split
  · exact tidy_createLocked Collection.quiet_datasetVersions ..
  · exact tidy_raise _

theorem tidy_updateDatasetVersion (versionId : String) (updates : Value) :
    Tidy (updateDatasetVersion versionId updates) := by
  refine tidy_get fun memory => ?_
  split
  · exact tidy_raise _
  split
  · exact tidy_raise _
  refine tidy_check fun supplied => ?_
  split
  · exact tidy_updateLocked Collection.quiet_datasetVersions ..
  · exact tidy_raise _

theorem tidy_createOutput (runId : String) (value : Value) : Tidy (createOutput runId value) :=
  tidy_bind (within_requireRun runId) fun _ => tidy_bind (within_requireKey runId _) fun _ =>
    tidy_createLocked (Collection.quiet_outputs runId) ..

theorem tidy_createDecisionPacket (runId : String) (value : Value) :
    Tidy (createDecisionPacket runId value) := by
  refine tidy_bind (within_requireRun runId) fun _ => tidy_check fun item => ?_
  refine tidy_bind (within_newIdLocked "ws") fun waitSetId => tidy_bind (within_requireKey runId _) fun _ => ?_
  exact tidy_createLocked (Collection.quiet_decisionPackets runId) ..

theorem tidy_updateDecisionPacket (runId packetId : String) (updates : Value) :
    Tidy (updateDecisionPacket runId packetId updates) := by
  refine tidy_bind (within_requireRun runId) fun _ => tidy_bind (within_requireKey runId _) fun _ => ?_
  refine tidy_get fun memory => ?_
  split
  · exact tidy_raise _
  refine tidy_check fun supplied => ?_
  split
  · exact tidy_raise _
  refine tidy_check fun suppliedWaitSet => ?_
  split
  · exact tidy_raise _
  · exact tidy_updateLocked (Collection.quiet_decisionPackets runId) ..

theorem within_requireRunOf (item : Fields) : Within Same (requireRunOf item) := by
  refine within_bind Same.trans (within_get Same.refl) fun memory => ?_
  split
  · exact within_pure Same.refl ()
  · exact within_pure Same.refl ()
  · split
    · exact within_pure Same.refl ()
    · exact within_raise Same.refl _
  all_goals exact within_raise Same.refl _

theorem tidy_createForRun {c : Collection} (hc : c.Quiet) (value : Value) (idField kind resource : String) :
    Tidy (createForRun c value idField kind resource) :=
  tidy_check fun item => tidy_bind (within_requireRunOf item) fun _ => tidy_createLocked hc ..

theorem within_storedResult (runId : String) (value : Value) : Within Same (storedResult runId value) := by
  refine within_bind Same.trans (within_check Same.refl _) fun result => ?_
  refine within_bind Same.trans (within_check Same.refl _) fun result => ?_
  refine within_bind Same.trans (within_newIdLocked "res") fun manifestId => ?_
  refine within_bind Same.trans (within_get Same.refl) fun memory => ?_
  exact within_bind Same.trans (within_check Same.refl _) fun _ => within_pure Same.refl _

theorem quiet_putResult (runId : String) (result : Fields) (s : Memory) : Quiet s (putResult runId result s) :=
  ⟨fun _ h => h, fun _ h => h, rfl, rfl⟩

theorem tidy_setResult (runId : String) (value : Value) : Tidy (setResult runId value) :=
  tidy_bind (within_requireRun runId) fun _ => tidy_bind (within_storedResult runId value) fun result =>
    tidy_write (quiet_putResult runId result) result

theorem quiet_putRecord (identity : String × String) (record : IdempotencyRecord) (s : Memory) :
    Quiet s (putRecord identity record s) :=
  ⟨fun _ h => h, fun _ h => h, rfl, rfl⟩

theorem tidy_beginIdempotentRequest (operation key fingerprint : String) :
    Tidy (beginIdempotentRequest operation key fingerprint) := by
  refine tidy_check fun identity => tidy_get fun memory => ?_
  split
  · exact tidy_write (quiet_putRecord _ _) _
  · exact tidy_pure _

theorem tidy_abortIdempotentRequest (operation key fingerprint : String) :
    Tidy (abortIdempotentRequest operation key fingerprint) := by
  refine tidy_check fun identity => tidy_get fun memory => ?_
  split
  · exact tidy_pure _
  split
  · exact tidy_raise _
  split
  · exact tidy_pure _
  · refine tidy_write (fun s => ?_) _
    exact ⟨fun _ h => h, fun _ h => h, rfl, rfl⟩

/-! ### Operations that write twice -/

/-- What a creation that succeeds leaves: one more entry, under the id it returns. -/
theorem createLocked_eq_ok {c : Collection} {value : Value} {idField kind resource : String} {fixed item : Fields}
    {s s' : Memory} (h : createLocked c value idField kind resource fixed s = (.ok item, s')) :
    ∃ id t, (item.get idField).bind Value.nonEmptyString? = some id ∧ Same s t ∧
      (c.get t).get id = none ∧ s' = c.put t ((c.get t).set id item) := by
  obtain ⟨item₁, -, h⟩ := check_bind_ok h
  obtain ⟨item₂, -, h⟩ := check_bind_ok h
  obtain ⟨item₃, t, h₃, h⟩ := bind_eq_ok h
  obtain ⟨id, hid, h⟩ := check_bind_ok h
  have hst := within_withId idField kind item₂ s
  rw [h₃] at hst
  rw [get_bind] at h
  split at h
  · cases h
  · rename_i hfree
    cases h
    refine ⟨id, t, ?_, hst, by simpa [Dict.has] using hfree, rfl⟩
    unfold requireId at hid
    split at hid
    · rename_i hid'; cases hid; exact hid'
    · cases hid

/-- The second creation, if it raises, takes the first one back. -/
theorem clean_createDatasetWithVersion (dataset version : Value) :
    Clean Same (createDatasetWithVersion dataset version) := by
  intro s e s' h
  rcases bind_eq_error h with h | ⟨item, s₁, h₁, h⟩
  · exact (tidy_createLocked Collection.quiet_datasets ..).clean s e s' h
  obtain ⟨id, t, hid, ⟨counters, rfl⟩, hfree, rfl⟩ := createLocked_eq_ok h₁
  rcases bind_eq_error h with h | ⟨_, _, -, h⟩
  · obtain ⟨s₂, h₂, rfl⟩ := onError_eq_error h
    obtain ⟨counters', rfl⟩ := (tidy_createLocked Collection.quiet_datasetVersions ..).clean _ e s₂ h₂
    have herase : (s.datasets.set id item).erase id = s.datasets := Dict.erase_set hfree item
    exact ⟨counters', by simp only [hid, Option.getD_some, Collection.datasets, herase]⟩
  · cases h

theorem quiet_createDatasetWithVersion (dataset version : Value) :
    Within Quiet (createDatasetWithVersion dataset version) := by
  refine within_bind Quiet.trans (tidy_createLocked Collection.quiet_datasets ..).quiet fun created => ?_
  refine within_bind Quiet.trans (fun s => ?_) fun _ => within_pure Quiet.refl _
  refine within_onError Quiet.trans (tidy_createLocked Collection.quiet_datasetVersions ..).quiet ?_ s
  exact fun s => ⟨fun _ h => h, fun _ h => h, rfl, rfl⟩

theorem tidy_createDatasetWithVersion (dataset version : Value) :
    Tidy (createDatasetWithVersion dataset version) :=
  ⟨clean_createDatasetWithVersion dataset version, quiet_createDatasetWithVersion dataset version⟩

/-- `create_run` makes its dictionaries after its last check. -/
theorem clean_createRun (value : Value) : Clean Same (createRun value) :=
  clean_bind Same.trans (within_check Same.refl _) fun _ =>
    clean_bind_total (clean_createLocked _ _ _ _ _ _) fun _ => total_bind (total_modify _) fun _ => total_pure _

/-! ### In a state of the store -/

/-- A program that, from `s`, raises only before it writes and keeps the invariant. -/
structure TidyAt {α : Type} (m : StoreM α) (s : Memory) : Prop where
  clean : ∀ e s', m s = (.error e, s') → Same s s'
  inv : (m s).2.Inv

section At

variable {α β : Type} {m : StoreM α} {s : Memory}

theorem Tidy.at (h : Tidy m) (hs : s.Inv) : TidyAt m s := ⟨h.clean s, (h.quiet s).inv hs⟩

theorem tidyAt_check {r : Except Fault α} {k : α → StoreM β} (hs : s.Inv)
    (hk : ∀ a, r = .ok a → TidyAt (k a) s) : TidyAt (check r >>= k) s := by
  cases r with
  | ok a => exact hk a rfl
  | error e => exact ⟨fun _ _ h => by cases h; exact .refl s, hs⟩

theorem requireRun_bind (runId : String) (k : Unit → StoreM β) (s : Memory) :
    (requireRun runId >>= k) s =
      if s.runs.has runId then k () s else (.error (.notFound "run" runId), s) := by
  by_cases h : s.runs.has runId
  · simp only [requireRun, bind_eq, Act.get, h, if_true]
    rfl
  · simp only [requireRun, bind_eq, Act.get, h]
    rfl

theorem tidyAt_requireRun {runId : String} {k : Unit → StoreM β} (hs : s.Inv)
    (hk : s.runs.has runId → TidyAt (k ()) s) : TidyAt (requireRun runId >>= k) s := by
  by_cases h : s.runs.has runId
  · have heq : (requireRun runId >>= k) s = k () s := by rw [requireRun_bind, if_pos h]
    exact ⟨fun e s' he => (hk h).clean e s' (by rw [← heq, he]), by rw [heq]; exact (hk h).inv⟩
  · have heq : (requireRun runId >>= k) s = (.error (.notFound "run" runId), s) := by
      rw [requireRun_bind, if_neg h]
    exact ⟨fun e s' he => by rw [heq] at he; cases he; exact .refl s, by rw [heq]; exact hs⟩

theorem tidyAt_requireRevision {runId : String} {expected : Option ℤ} {k : Fields × ℤ → StoreM β} (hs : s.Inv)
    (hk : ∀ p, currentRevision runId expected s = .ok p → TidyAt (k p) s) :
    TidyAt (requireRevision runId expected >>= k) s := by
  have heq : (requireRevision runId expected >>= k) s = (check (currentRevision runId expected s) >>= k) s := rfl
  have h := tidyAt_check hs hk
  exact ⟨fun e s' he => h.clean e s' (by rw [← heq, he]), by rw [heq]; exact h.inv⟩

/-- A run that exists has its dictionary of approvals, so opening it writes nothing. -/
theorem tidyAt_openApprovals {runId : String} {k : Unit → StoreM β} (hs : s.Inv) (h : s.runs.has runId)
    (hk : TidyAt (k ()) s) : TidyAt (Act.modify (openApprovals runId) >>= k) s := by
  have hopen : openApprovals runId s = s := by
    rw [openApprovals, Dict.setDefault_of_has (hs.approvals runId h)]
  have heq : (Act.modify (openApprovals runId) >>= k) s = k () s := by rw [modify_bind, hopen]
  exact ⟨fun e s' he => hk.clean e s' (by rw [← heq, he]), by rw [heq]; exact hk.inv⟩

end At

theorem tidyAt_createApproval {s : Memory} (hs : s.Inv) (runId : String) (value : Value) :
    TidyAt (createApproval runId value) s :=
  tidyAt_requireRun hs fun h => tidyAt_openApprovals hs h
    ((tidy_createLocked (Collection.quiet_approvals runId) ..).at hs)

theorem tidyAt_updateApproval {s : Memory} (hs : s.Inv) (runId approvalId : String) (updates : Value) :
    TidyAt (updateApproval runId approvalId updates) s := by
  refine tidyAt_requireRun hs fun h => tidyAt_check hs fun supplied _ => ?_
  split
  · exact (tidy_raise _).at hs
  · exact tidyAt_openApprovals hs h ((tidy_updateLocked (Collection.quiet_approvals runId) ..).at hs)

/-- The memory after a run that exists has been written. -/
theorem inv_putRun {s : Memory} (hs : s.Inv) {runId : String} (h : s.runs.has runId) (run : Fields) :
    (putRun runId run s).Inv := by
  have hruns : ∀ r, (putRun runId run s).runs.has r → s.runs.has r := fun r hr => by
    rw [putRun, Dict.has_set, Bool.or_eq_true, decide_eq_true_eq] at hr
    rcases hr with rfl | hr
    · exact h
    · exact hr
  exact ⟨fun r hr => hs.approvals r (hruns r hr), fun r hr => hs.events r (hruns r hr), hs.index⟩

theorem has_of_currentRevision {s : Memory} {runId : String} {expected : Option ℤ} {p : Fields × ℤ}
    (h : currentRevision runId expected s = .ok p) : s.runs.get runId = some p.1 := by
  unfold currentRevision at h
  split at h
  · cases h
  rename_i current hrun
  split at h
  · cases h
  split at h
  · cases h; exact hrun
  · split at h
    · cases h; exact hrun
    · cases h

theorem tidyAt_updateRun {s : Memory} (hs : s.Inv) (runId : String) (updates : Value) (expected : Option ℤ)
    (bump : Bool) : TidyAt (updateRun runId updates expected bump) s := by
  refine tidyAt_requireRevision hs fun p hp => tidyAt_check hs fun changes _ => ?_
  have hrun := has_of_currentRevision hp
  exact ⟨fun e s' he => (by cases he), inv_putRun hs (by rw [Dict.has, hrun]; rfl) _⟩

theorem indexed_set (events : Dict String (List Fields)) (runId : String) (log : List Fields) :
    indexed (events.set runId log) =
      (indexed events).set runId (log.foldl (fun ids event => ids.set (eventId event) event) []) :=
  Dict.mapValues_set ..

theorem inv_createRun {s : Memory} (hs : s.Inv) (value : Value) : (createRun value s).2.Inv := by
  have hclean := clean_createRun value s
  cases h : createRun value s with
  | mk r s' =>
    cases r with
    | error e => exact (hclean e s' h).quiet.inv hs
    | ok created =>
      obtain ⟨item, -, h⟩ := check_bind_ok h
      obtain ⟨created', s₁, h₁, h⟩ := bind_eq_ok h
      obtain ⟨id, t, hid, ⟨counters, rfl⟩, -, rfl⟩ := createLocked_eq_ok h₁
      cases h
      simp only [hid, Option.getD_some]
      refine ⟨fun r hr => ?_, fun r hr => ?_, ?_⟩
      · simp only [Collection.runs, Dict.has_set, Bool.or_eq_true, decide_eq_true_eq] at hr ⊢
        exact hr.imp_right (hs.approvals r)
      · simp only [Collection.runs, Dict.has_set, Bool.or_eq_true, decide_eq_true_eq] at hr ⊢
        exact hr.imp_right (hs.events r)
      · show (s.eventIds.set id []) = indexed (s.events.set id [])
        rw [indexed_set, ← hs.index]
        rfl

theorem tidyAt_createRun {s : Memory} (hs : s.Inv) (value : Value) : TidyAt (createRun value) s :=
  ⟨clean_createRun value s, inv_createRun hs value⟩

end AutomlApi.Store
