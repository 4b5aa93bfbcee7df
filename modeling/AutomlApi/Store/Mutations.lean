import AutomlApi.Library.Runs
import AutomlApi.Store.Compound

/-! Histories of the durable store, and what a mutation that raises leaves in any state
that they reach. -/

namespace AutomlApi.Store

open Act Runs

/-! ### Histories -/

/-- What happens to a store: a mutation, whose checkpoint may fail to be written, a
reading that opens a dictionary, or a restart from the last checkpoint. -/
inductive Event where
  | call (disk : Bool) (op : Op)
  | readApprovals (runId : String)
  | readDeliveries (endpointId : String)
  | reopen

namespace SqliteStore

/-- The store over a new database. -/
def init : SqliteStore := ⟨.empty, .empty, .empty⟩

def step (o : SetOrder) (s : SqliteStore) : Event → SqliteStore
  | .call disk op => (op.apply o disk s).2
  | .readApprovals runId =>
    if s.memory.runs.has runId then { s with memory := openApprovals runId s.memory } else s
  | .readDeliveries endpointId =>
    if s.memory.webhookEndpoints.has endpointId then { s with memory := openDeliveries endpointId s.memory } else s
  | .reopen => { s with memory := restore s.checkpoint }

/-- A history leads from one store to the other. -/
def Leads (o : SetOrder) (s : SqliteStore) (es : List Event) (t : SqliteStore) : Prop :=
  Run (fun s e => some (step o s e)) Free s es t

def Reachable (o : SetOrder) (s : SqliteStore) : Prop := ∃ es, Leads o init es s

/-- The same store, but for the id counters in memory. -/
def recount (s : SqliteStore) (counters : Dict String ℕ) : SqliteStore :=
  { s with memory := { s.memory with idCounters := counters } }

/-- A call left no trace: every collection is as before it, in memory and in the
checkpoint, and whatever happens later happens as from the store before the call. -/
def Untouched (o : SetOrder) (s s' : SqliteStore) : Prop :=
  ∃ counters, s' = s.recount counters ∧ ∀ es t, Leads o s' es t ↔ Leads o (s.recount counters) es t

structure Inv (s : SqliteStore) : Prop where
  memory : s.memory.Inv
  checkpoint : (restore s.checkpoint).Inv

end SqliteStore

/-! ### The checkpoint -/

theorem serialise_eq_some {m snapshot : Memory} (h : serialise m = some snapshot) :
    m.runs.written Value.encodeFields = some snapshot.runs ∧
      m.events.written (fun log => log.mapM Value.encodeFields) = some snapshot.events ∧
      m.idempotency.traverse encodeRecord = some snapshot.idempotency := by
  unfold serialise at h
  obtain ⟨_, -, h⟩ := Option.bind_eq_some_iff.mp h
  obtain ⟨_, -, h⟩ := Option.bind_eq_some_iff.mp h
  obtain ⟨runs, hruns, h⟩ := Option.bind_eq_some_iff.mp h
  obtain ⟨events, hevents, h⟩ := Option.bind_eq_some_iff.mp h
  -- the collections between the events and the idempotency records
  iterate 10 obtain ⟨_, -, h⟩ := Option.bind_eq_some_iff.mp h
  obtain ⟨records, hrecords, h⟩ := Option.bind_eq_some_iff.mp h
  cases h
  exact ⟨hruns, hevents, hrecords⟩

/-- A checkpoint of a store with the invariant can be restored. -/
theorem inv_restore {m snapshot : Memory} (hm : m.Inv) (h : serialise m = some snapshot) :
    (restore snapshot).Inv := by
  obtain ⟨hruns, hevents, -⟩ := serialise_eq_some h
  refine ⟨fun r hr => ?_, fun r hr => ?_, rfl⟩
  · obtain ⟨run, hrun⟩ := Option.isSome_iff_exists.mp hr
    refine has_foldl_setDefault snapshot.runs snapshot.approvals r (.inr ⟨(r, run), ?_, rfl⟩)
    exact Dict.mem_of_get hrun
  · rw [restore, Dict.has_written hevents]
    rw [restore, Dict.has_written hruns] at hr
    exact hm.events r hr

/-! ### What one operation does -/

/-- Every method keeps the invariant, and leaves no trace when it raises exactly under
its condition. -/
theorem atomic_method (o : SetOrder) {s : Memory} (hs : s.Inv) (op : Op) :
    AtomicIff (op.method o) s (op.Atomic o s) := by
  have htidy : ∀ {α : Type} {m : StoreM α}, Tidy m → AtomicIff (Op.method.void m) s True := fun h =>
    atomic_reply (fun _ _ => ⟨(), rfl⟩) (h.at hs).atomic
  have hat : ∀ {α : Type} {m : StoreM α} {P : Prop}, AtomicIff m s P → AtomicIff (Op.method.void m) s P :=
    fun h => atomic_reply (fun _ _ => ⟨(), rfl⟩) h
  cases op with
  | newId kind => exact htidy (tidy_newId kind)
  | createDataset => exact htidy (tidy_createLocked Collection.quiet_datasets ..)
  | updateDataset => exact htidy (tidy_updateLocked Collection.quiet_datasets ..)
  | createDatasetVersion => exact htidy (tidy_createDatasetVersion ..)
  | createDatasetWithVersion => exact htidy (tidy_createDatasetWithVersion ..)
  | updateDatasetVersion => exact htidy (tidy_updateDatasetVersion ..)
  | createRun value => exact hat (tidyAt_createRun hs value).atomic
  | updateRun => exact hat (tidyAt_updateRun hs ..).atomic
  | appendEvent runId value => exact hat (atomic_recordEvent hs o runId value)
  | mutateRunWithEvent => exact hat (atomic_mutateRunWithEvent hs ..)
  | finalizeRunWithResult => exact hat (atomic_finalizeRunWithResult hs ..)
  | createOutput => exact htidy (tidy_createOutput ..)
  | createDecisionPacket => exact htidy (tidy_createDecisionPacket ..)
  | updateDecisionPacket => exact htidy (tidy_updateDecisionPacket ..)
  | createCommand => exact htidy (tidy_createForRun Collection.quiet_commands ..)
  | updateCommand => exact htidy (tidy_updateLocked Collection.quiet_commands ..)
  | setResult => exact htidy (tidy_setResult ..)
  | createArtifact => exact htidy (tidy_createForRun Collection.quiet_artifacts ..)
  | updateArtifact => exact htidy (tidy_updateLocked Collection.quiet_artifacts ..)
  | createApproval => exact hat (tidyAt_createApproval hs ..).atomic
  | updateApproval => exact hat (tidyAt_updateApproval hs ..).atomic
  | createModel => exact htidy (tidy_createForRun Collection.quiet_models ..)
  | createWebhookEndpoint => exact htidy (tidy_createLocked Collection.quiet_webhookEndpoints ..)
  | updateWebhookEndpoint => exact htidy (tidy_updateLocked Collection.quiet_webhookEndpoints ..)
  | createWebhookDelivery => exact hat (atomic_createWebhookDelivery hs ..)
  | updateWebhookDelivery => exact hat (atomic_updateWebhookDelivery hs ..)
  | createDeletion => exact htidy (tidy_createLocked Collection.quiet_deletions ..)
  | updateDeletion => exact htidy (tidy_updateLocked Collection.quiet_deletions ..)
  | beginIdempotentRequest => exact htidy (tidy_beginIdempotentRequest ..)
  | completeIdempotentRequest => exact hat (atomic_completeIdempotentRequest hs ..)
  | abortIdempotentRequest => exact htidy (tidy_abortIdempotentRequest ..)
  | reset => exact ⟨fun _ _ h => (by cases h), fun _ => trivial, inv_empty⟩
  | job => exact (⟨fun _ _ h => (by cases h), fun _ => trivial, hs⟩ : AtomicIff (pure () : StoreM Unit) s True)

theorem untouched_iff {o : SetOrder} {s : SqliteStore} {m : Memory} :
    s.Untouched o { s with memory := m } ↔ Same s.memory m := by
  constructor
  · rintro ⟨counters, h, -⟩
    exact ⟨counters, congrArg SqliteStore.memory h⟩
  · rintro ⟨counters, rfl⟩
    exact ⟨counters, rfl, fun _ _ => .rfl⟩

theorem untouched_refl (o : SetOrder) (s : SqliteStore) : s.Untouched o s := untouched_iff.mpr (.refl s.memory)

/-- The wrapper of every mutation of the memory. -/
theorem durableMutation_spec (o : SetOrder) (disk : Bool) {m : StoreM Unit} {s : SqliteStore} {P : Prop}
    (hs : s.Inv) (h : AtomicIff m s.memory P) :
    (durableMutation m disk s).2.Inv ∧
      ∀ raised s', durableMutation m disk s = (.error raised, s') → (s.Untouched o s' ↔ P) := by
  have hback : ({ s with memory := restore s.memory } : SqliteStore) = s := by rw [restore_eq hs.memory]
  have hinv := h.inv
  cases hm : m s.memory with
  | mk r memory =>
    rw [hm] at hinv
    cases r with
    | error fault =>
      simp only [durableMutation, hm]
      refine ⟨⟨hinv, hs.checkpoint⟩, fun raised s' he => ?_⟩
      cases he
      rw [untouched_iff, h.same fault memory hm]
    | ok _ =>
      have hP : P := h.done ⟨(), memory, hm⟩
      have hrefused : ∀ fault : Fault, s.Inv ∧ ∀ raised s',
          ((.error (.store fault), s) : Except Raised Unit × SqliteStore) = (.error raised, s') →
            (s.Untouched o s' ↔ P) :=
        fun fault => ⟨hs, fun raised s' he => by cases he; exact iff_of_true (untouched_refl o s) hP⟩
      simp only [durableMutation, hm, hback]
      cases hser : serialise memory with
      | none => exact hrefused _
      | some snapshot =>
        cases disk with
        | true => exact ⟨⟨hinv, inv_restore hinv hser⟩, fun raised s' he => (by cases he)⟩
        | false => exact hrefused _

/-- A job operation that raises leaves its table alone. -/
theorem jobs_of_error {t t' : Jobs.Table String} {r : Jobs.Readings} {op : Jobs.Op String} {fault : Jobs.Fault String}
    (h : op.apply t r = (t', .error fault)) : t' = t := by
  have hcommit : ∀ {α : Type} (e : Jobs.Effect String α) {f : Jobs.Fault String},
      t.commit e = (t', .error f) → t' = t := fun e f he => by
    cases e <;> cases he
    rfl
  cases op <;> exact hcommit _ h

theorem apply_spec (o : SetOrder) (disk : Bool) {s : SqliteStore} (hs : s.Inv) (op : Op) :
    (op.apply o disk s).2.Inv ∧
      ∀ raised s', op.apply o disk s = (.error raised, s') → (s.Untouched o s' ↔ op.Atomic o s.memory) := by
  have hspec := durableMutation_spec o disk hs (atomic_method o hs.memory op)
  cases op with
  | reset =>
    unfold Op.apply
    cases h : durableMutation (Op.method o .reset) disk s with
    | mk r s' =>
      rw [h] at hspec
      cases r with
      | error raised => exact hspec
      | ok _ => exact ⟨⟨hspec.1.memory, hspec.1.checkpoint⟩, fun raised s'' he => (by cases he)⟩
  | job r op =>
    cases disk with
    | false => exact ⟨hs, fun raised s' he => by cases he; exact iff_of_true (untouched_refl o s) trivial⟩
    | true =>
      simp only [Op.apply, if_true]
      cases h : (knowing s.memory op).apply s.jobs r with
      | mk jobs result =>
        cases result with
        | ok reply => exact ⟨⟨hs.memory, hs.checkpoint⟩, fun raised s' he => (by cases he)⟩
        | error fault =>
          obtain rfl := jobs_of_error h
          exact ⟨hs, fun raised s' he => by cases he; exact iff_of_true (untouched_refl o s) trivial⟩
  | _ => exact hspec

theorem inv_step (o : SetOrder) {s : SqliteStore} (hs : s.Inv) (e : Event) : (SqliteStore.step o s e).Inv := by
  cases e with
  | call disk op => exact (apply_spec o disk hs op).1
  | readApprovals runId =>
    simp only [SqliteStore.step]
    split
    · rename_i h
      have hopen : openApprovals runId s.memory = s.memory := by
        rw [openApprovals, Dict.setDefault_of_has (hs.memory.approvals runId h)]
      rw [hopen]
      exact hs
    · exact hs
  | readDeliveries endpointId =>
    simp only [SqliteStore.step]
    split
    · exact ⟨(quiet_openDeliveries endpointId s.memory).inv hs.memory, hs.checkpoint⟩
    · exact hs
  | reopen => exact ⟨hs.checkpoint, hs.checkpoint⟩

theorem inv_reachable {o : SetOrder} {s : SqliteStore} (h : s.Reachable o) : s.Inv := by
  obtain ⟨es, hrun⟩ := h
  refine hrun.invariant (fun s e u hs _ he => ?_) ⟨inv_empty, inv_empty⟩
  cases he
  exact inv_step o hs e

/-- A set that is walked through as it was built. -/
def inOrder : SetOrder := ⟨id, fun _ => .refl _, fun _ => ""⟩

namespace Stray

/-- A store with one run. -/
def store : SqliteStore :=
  SqliteStore.init.step inOrder
    (.call true (.createRun (.dict [("run_id", .str "run_1"), ("status", .str "CREATED")])))

/-- A mutation of the run whose event names another run. -/
def mutation : Op :=
  .mutateRunWithEvent "run_1" (.dict [("status", .str "RUNNING")]) (.dict [("run_id", .str "run_2")]) none true

/-- A mutation that has nothing to do with the run. -/
def next : Op := .createDataset (.dict [("name", .str "churn")])

/-- The status that a run shows. -/
def status (m : Memory) : Option String :=
  ((m.runs.get "run_1").bind fun run => Dict.get run "status").bind Value.nonEmptyString?

theorem reachable_store : store.Reachable inOrder := ⟨_, .cons trivial rfl (.nil store)⟩

theorem raises : ∃ raised, mutation.apply inOrder true store = (.error raised, (mutation.apply inOrder true store).2) := by
  have h : (mutation.apply inOrder true store).1.isOk = false := by decide +kernel
  cases hr : mutation.apply inOrder true store with
  | mk r s' =>
    rw [hr] at h
    cases r with
    | error raised => exact ⟨raised, rfl⟩
    | ok _ => cases h

theorem returns (s : SqliteStore) (h : (next.apply inOrder true s).1.isOk = true) :
    next.apply inOrder true s = (.ok (), (next.apply inOrder true s).2) := by
  cases hr : next.apply inOrder true s with
  | mk r s' =>
    rw [hr] at h
    cases r with
    | error raised => cases h
    | ok _ => rfl

end Stray

end AutomlApi.Store
