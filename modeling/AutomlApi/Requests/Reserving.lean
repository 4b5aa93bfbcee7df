import AutomlApi.Requests.Idempotent
import AutomlApi.Store.Frames

/-! What the calls of the store do to the record of a key. A call that fails leaves it
as it was; of the others only the reservation, the recording and the abortion of the
key change it, and no other operation of the store does. -/

namespace AutomlApi.Requests

open Act
open Store (Fields IdempotencyRecord IdempotencyState Memory Op Raised SetOrder SqliteStore StoredResponse StoreM
  Value)

/-! ### Durable calls -/

section Durably

variable {α : Type} {m : StoreM α} {disk : Bool} {s : SqliteStore}

theorem void_eq (m : StoreM α) (t : Memory) :
    Op.method.void m t = ((m t).1.map fun _ => (), (m t).2) := by
  unfold Op.method.void
  rw [bind_eq]
  cases m t with
  | mk r t' => cases r <;> rfl

/-- A mutation that returns has written what its method wrote; one that fails has
failed in its method, or in the checkpoint, which takes the memory back. -/
theorem durableMutation_memory (m : StoreM Unit) (disk : Bool) (s : SqliteStore) :
    let r := Store.durableMutation m disk s
    (r.1 = .ok () → (m s.memory).1 = .ok () ∧ r.2.memory = (m s.memory).2) ∧
      (∀ raised, r.1 = .error raised →
        (∃ fault, m s.memory = (.error fault, r.2.memory)) ∨ r.2.memory = Store.restore s.memory) := by
  unfold Store.durableMutation
  cases hm : m s.memory with
  | mk r t =>
    cases r with
    | error fault =>
      constructor
      · intro h; cases h
      · intro raised _; exact .inl ⟨fault, rfl⟩
    | ok u =>
      cases hj : Store.serialise t with
      | none =>
        constructor
        · intro h; simp [hj] at h
        · intro raised _; right; simp [hj]
      | some snapshot =>
        cases disk with
        | true =>
          constructor
          · intro _; simp [hj]
          · intro raised h; simp [hj] at h
        | false =>
          constructor
          · intro h; simp [hj] at h
          · intro raised _; right; simp [hj]

theorem durably_ok {s' : SqliteStore} {a : α} (h : durably m disk s = (.ok a, s')) :
    m s.memory = (.ok a, s'.memory) := by
  have hd := (durableMutation_memory (Op.method.void m) disk s).1
  unfold durably at h
  cases hm : m s.memory with
  | mk r t =>
    cases r with
    | error fault => simp [hm] at h
    | ok b =>
      cases hv : Store.durableMutation (Op.method.void m) disk s with
      | mk r' t' =>
        rw [hv] at hd h
        cases r' with
        | error raised => simp [hm] at h
        | ok u =>
          obtain ⟨-, hmem⟩ := hd rfl
          rw [void_eq, hm] at hmem
          rw [hm] at h
          cases h
          rw [hmem]

theorem durably_error {s' : SqliteStore} {raised : Raised} (h : durably m disk s = (.error raised, s')) :
    (∃ fault, m s.memory = (.error fault, s'.memory)) ∨ s'.memory = Store.restore s.memory := by
  have hd := durableMutation_memory (Op.method.void m) disk s
  unfold durably at h
  cases hm : m s.memory with
  | mk r t =>
    cases hv : Store.durableMutation (Op.method.void m) disk s with
    | mk r' t' =>
      rw [hv] at hd h
      rw [void_eq, hm] at hd
      cases r with
      | error fault =>
        rw [hm] at h
        have hs' : t' = s' := by cases r' <;> simp at h <;> exact h.2
        subst hs'
        cases r' with
        | ok u => exact absurd (hd.1 rfl).1 (by simp [Except.map])
        | error e =>
          rcases hd.2 e rfl with ⟨fault', hf⟩ | hrest
          · simp only [Prod.mk.injEq] at hf
            exact .inl ⟨fault, by rw [← hf.2]⟩
          · exact .inr hrest
      | ok b =>
        rw [hm] at h
        cases r' with
        | ok u => cases h
        | error e =>
          cases h
          rcases hd.2 raised rfl with ⟨fault, hf⟩ | hrest
          · cases hf
          · exact .inr hrest

end Durably

/-! ### The record of a key -/

variable {operation key fingerprint : String} {disk : Bool} {s s' : SqliteStore}

theorem idempotency_restore (t : Memory) : (Store.restore t).idempotency = t.idempotency := rfl

/-- A durable call that fails keeps the record if its method does where it fails. -/
theorem recordOf_error {α : Type} {m : StoreM α} {raised : Raised}
    (hm : ∀ fault t, m s.memory = (.error fault, t) →
      t.idempotency.get (operation, key) = s.memory.idempotency.get (operation, key))
    (h : durably m disk s = (.error raised, s')) : recordOf operation key s' = recordOf operation key s := by
  unfold recordOf
  rcases durably_error h with ⟨fault, hf⟩ | hrest
  · exact hm fault _ hf
  · rw [hrest, idempotency_restore]

theorem identity_eq_ok {identity : String × String}
    (h : Store.idempotencyIdentity operation key fingerprint = .ok identity) : identity = (operation, key) := by
  unfold Store.idempotencyIdentity at h
  split at h
  · cases h
  split at h
  · cases h
  split at h
  · cases h
  · cases h; rfl

/-- A reservation: the key is taken where it was free, and else nothing changes. -/
theorem begin_record {r : Except Raised IdempotencyState}
    (h : durably (Store.beginIdempotentRequest operation key fingerprint) disk s = (r, s')) :
    (r = .ok .new ∧ recordOf operation key s = none ∧ recordOf operation key s' = some ⟨fingerprint, none⟩) ∨
      (∃ record, recordOf operation key s = some record ∧ recordOf operation key s' = some record ∧
        r = .ok (Store.idempotencyDecision record fingerprint)) ∨
      ((∃ raised, r = .error raised) ∧ recordOf operation key s' = recordOf operation key s) := by
  cases r with
  | error raised =>
    refine .inr (.inr ⟨⟨raised, rfl⟩, recordOf_error ?_ h⟩)
    intro fault t ht
    obtain ⟨counters, rfl⟩ := (Store.tidy_beginIdempotentRequest operation key fingerprint).clean _ _ _ ht
    rfl
  | ok state =>
    obtain ⟨identity, hid, hrun⟩ := check_bind_ok (durably_ok h)
    rw [get_bind] at hrun
    cases identity_eq_ok hid
    cases hrec : s.memory.idempotency.get (operation, key) with
    | none =>
      rw [hrec] at hrun
      change (Except.ok IdempotencyState.new, Store.putRecord (operation, key) ⟨fingerprint, none⟩ s.memory) =
        (.ok state, s'.memory) at hrun
      obtain ⟨hstate, hmem⟩ := Prod.mk.inj hrun
      cases hstate
      refine .inl ⟨rfl, hrec, ?_⟩
      rw [recordOf, ← hmem]
      exact Dict.get_set_self ..
    | some record =>
      rw [hrec] at hrun
      obtain ⟨hstate, hmem⟩ := Prod.mk.inj hrun
      cases hstate
      exact .inr (.inl ⟨record, hrec, by rw [recordOf, ← hmem, hrec], rfl⟩)

/-- The recording of the answer of a request that has the reservation. -/
theorem complete_record {statusCode : ℤ} {body : Value} {headers : Fields} {r : Except Raised StoredResponse}
    (hs : recordOf operation key s = some ⟨fingerprint, none⟩)
    (h : durably (Store.completeIdempotentRequest operation key fingerprint statusCode body headers) disk s
      = (r, s')) :
    (r = .ok ⟨statusCode, body, headers⟩ ∧
        recordOf operation key s' = some ⟨fingerprint, some ⟨statusCode, body, headers⟩⟩) ∨
      ((∃ raised, r = .error raised) ∧ recordOf operation key s' = recordOf operation key s) := by
  have hget : s.memory.idempotency.get (operation, key) = some ⟨fingerprint, none⟩ := hs
  have hput : Store.putRecord (operation, key) ⟨fingerprint, none⟩ s.memory = s.memory := by
    rw [Store.putRecord, Dict.set_get hget]
  have hrun : ∀ r t,
      Store.completeIdempotentRequest operation key fingerprint statusCode body headers s.memory = (r, t) →
      (∃ fault, r = .error fault) ∧ t = s.memory ∨
        r = .ok ⟨statusCode, body, headers⟩ ∧ t.idempotency.get (operation, key) =
          some ⟨fingerprint, some ⟨statusCode, body, headers⟩⟩ := by
    intro r t ht
    unfold Store.completeIdempotentRequest at ht
    rw [check_bind] at ht
    cases hid : Store.idempotencyIdentity operation key fingerprint with
    | error fault => rw [hid] at ht; cases ht; exact .inl ⟨⟨fault, rfl⟩, rfl⟩
    | ok identity =>
      cases identity_eq_ok hid
      rw [hid] at ht
      simp only [get_bind, hget, Option.getD_some, modify_bind, hput, ne_eq, not_true_eq_false,
        if_false] at ht
      rw [check_bind] at ht
      unfold Store.storedResponse at ht
      split at ht
      · rename_i stored hst
        split at hst
        · cases hst
          cases ht
          exact .inr ⟨rfl, Dict.get_set_self ..⟩
        · cases hst
      · rename_i fault hst
        cases ht
        exact .inl ⟨⟨fault, rfl⟩, rfl⟩
  cases r with
  | ok stored =>
    rcases hrun _ _ (durably_ok h) with ⟨⟨_, hr⟩, -⟩ | ⟨hr, hrec⟩
    · cases hr
    · cases hr; exact .inl ⟨rfl, hrec⟩
  | error raised =>
    refine .inr ⟨⟨raised, rfl⟩, recordOf_error ?_ h⟩
    intro fault t ht
    rcases hrun _ _ ht with ⟨-, rfl⟩ | ⟨hr, -⟩
    · rfl
    · cases hr

/-- The abortion of a reservation. -/
theorem abort_record {r : Except Raised Bool} (hs : recordOf operation key s = some ⟨fingerprint, none⟩)
    (h : durably (Store.abortIdempotentRequest operation key fingerprint) disk s = (r, s')) :
    ((∃ done, r = .ok done) ∧ recordOf operation key s' = none) ∨
      ((∃ raised, r = .error raised) ∧ recordOf operation key s' = recordOf operation key s) := by
  have hget : s.memory.idempotency.get (operation, key) = some ⟨fingerprint, none⟩ := hs
  cases r with
  | error raised =>
    refine .inr ⟨⟨raised, rfl⟩, recordOf_error ?_ h⟩
    intro fault t ht
    obtain ⟨counters, rfl⟩ := (Store.tidy_abortIdempotentRequest operation key fingerprint).clean _ _ _ ht
    rfl
  | ok done =>
    obtain ⟨identity, hid, hrun⟩ := check_bind_ok (durably_ok h)
    cases identity_eq_ok hid
    simp only [get_bind, hget, ne_eq, not_true_eq_false, if_false, Option.isSome_none, Bool.false_eq_true]
      at hrun
    change (Except.ok true, ({ s.memory with idempotency := s.memory.idempotency.erase (operation, key) } : Memory))
      = (.ok done, s'.memory) at hrun
    obtain ⟨-, hmem⟩ := Prod.mk.inj hrun
    refine .inl ⟨⟨done, rfl⟩, ?_⟩
    rw [recordOf, ← hmem]
    exact (Dict.get_erase ..).trans (if_pos rfl)

/-! ### The other operations -/

/-- The same record of the key. -/
def SameRecord (operation key : String) (s t : Memory) : Prop :=
  t.idempotency.get (operation, key) = s.idempotency.get (operation, key)

theorem frame_sameRecord (operation key : String) : Store.Frame (SameRecord operation key) where
  refl s := rfl
  trans s t u hst htu := Eq.trans htu hst
  same h := by obtain ⟨counters, rfl⟩ := h; rfl
  plain h m d := by cases h <;> rfl
  results m d := rfl

theorem SameRecord.recordEvent (o : SetOrder) (runId : String) (value : Value) :
    Within (SameRecord operation key) (Store.recordEvent o runId value) := by
  have hR := frame_sameRecord operation key
  refine within_bind hR.trans ?_ fun p => ?_
  · refine within_bind hR.trans (within_get hR.refl) fun memory => ?_
    split
    · exact within_raise hR.refl _
    · exact within_pure hR.refl _
    · split
      · exact within_raise hR.refl _
      refine within_bind hR.trans (hR.within_of_same (Store.within_withId _ _ _)) fun event => ?_
      exact within_bind hR.trans (fun s => rfl) fun _ => within_pure hR.refl _
  · dsimp only
    split
    · exact within_bind hR.trans (hR.announce o runId _) fun _ => within_pure hR.refl _
    · exact within_pure hR.refl _

theorem SameRecord.recordRevised (o : SetOrder) (runId : String) (run : Fields) (value : Value) :
    Within (SameRecord operation key) (Store.recordRevised o runId run value) :=
  within_bind (frame_sameRecord ..).trans (within_check (frame_sameRecord ..).refl _) fun _ =>
    SameRecord.recordEvent o runId _

theorem SameRecord.recordAll (o : SetOrder) (runId : String) (run : Fields) (events : List Value) :
    Within (SameRecord operation key) (Store.recordAll o runId run events) := by
  have hR := frame_sameRecord operation key
  induction events with
  | nil => exact within_pure hR.refl _
  | cons value rest ih =>
    exact within_bind hR.trans (SameRecord.recordRevised o runId run value) fun _ =>
      within_bind hR.trans ih fun _ => within_pure hR.refl _

/-- A call of the store about another key, from the check of its arguments on. -/
theorem SameRecord.identified {α : Type} {operation' key' fingerprint' : String} {k : String × String → StoreM α}
    (hk : Within (SameRecord operation key) (k (operation', key'))) :
    Within (SameRecord operation key) (check (Store.idempotencyIdentity operation' key' fingerprint') >>= k) := by
  intro s
  rw [check_bind]
  cases hid : Store.idempotencyIdentity operation' key' fingerprint' with
  | error fault => exact rfl
  | ok identity =>
    cases identity_eq_ok hid
    exact hk s

theorem SameRecord.putRecord {identity : String × String} (h : (operation, key) ≠ identity)
    (record : IdempotencyRecord) (s : Memory) : SameRecord operation key s (Store.putRecord identity record s) := by
  unfold SameRecord Store.putRecord
  rw [Dict.get_set, if_neg h]

theorem SameRecord.erase {identity : String × String} (h : (operation, key) ≠ identity) (s : Memory) :
    SameRecord operation key s { s with idempotency := s.idempotency.erase identity } := by
  unfold SameRecord
  rw [Dict.get_erase, if_neg h]

/-- An operation that writes no record of the key leaves the record alone. -/
theorem SameRecord.method (o : SetOrder) {op : Op} (h : writesRecord operation key op = false) :
    Within (SameRecord operation key) (op.method o) := by
  have hR := frame_sameRecord operation key
  by_cases hp : op.plain
  · exact hR.method o hp
  cases op with
  | createRun value =>
    refine hR.void (within_bind hR.trans (within_check hR.refl _) fun item => ?_)
    refine within_bind hR.trans (within_bind hR.trans (within_check hR.refl _) fun item' => ?_) fun created =>
      within_bind hR.trans (fun s => rfl) fun _ => within_pure hR.refl _
    exact Store.within_insertLocked hR.refl hR.trans hR.same
      (fun m d => (rfl : SameRecord operation key m (Store.Collection.runs.put m d))) _ _ _ _ _
  | updateRun runId updates expected bump =>
    refine hR.void (within_bind hR.trans (hR.within_of_same (Store.within_requireRevision _ _)) fun p => ?_)
    refine within_bind hR.trans (within_check hR.refl _) fun changes => ?_
    exact within_bind hR.trans (fun s => rfl) fun _ => within_pure hR.refl _
  | appendEvent runId value => exact hR.void (SameRecord.recordEvent o runId value)
  | mutateRunWithEvent runId updates event expected bump =>
    refine hR.void (within_bind hR.trans (hR.within_of_same (Store.within_requireRevision _ _)) fun p => ?_)
    refine within_bind hR.trans (within_check hR.refl _) fun changes => ?_
    refine within_bind hR.trans (fun s => rfl) fun _ => ?_
    refine within_bind hR.trans (SameRecord.recordRevised o runId _ event) fun stored => ?_
    exact within_bind hR.trans (within_get hR.refl) fun _ => within_pure hR.refl _
  | finalizeRunWithResult runId result updates events expected =>
    refine hR.void (within_bind hR.trans (hR.within_of_same (Store.within_requireRevision _ _)) fun p => ?_)
    refine within_bind hR.trans (hR.within_of_same (Store.within_storedResult _ _)) fun stored => ?_
    refine within_bind hR.trans (fun s => hR.results s _) fun _ => ?_
    refine within_bind hR.trans (within_check hR.refl _) fun changes => ?_
    refine within_bind hR.trans (fun s => rfl) fun _ => ?_
    refine within_bind hR.trans (SameRecord.recordAll o runId _ events) fun storedEvents => ?_
    exact within_bind hR.trans (within_get hR.refl) fun _ => within_pure hR.refl _
  | beginIdempotentRequest operation' key' fingerprint' =>
    have hne : (operation, key) ≠ (operation', key') := by rintro ⟨⟩; simp [writesRecord] at h
    refine hR.void (SameRecord.identified (within_bind hR.trans (within_get hR.refl) fun memory => ?_))
    split
    · exact within_bind hR.trans (SameRecord.putRecord hne _) fun _ => within_pure hR.refl _
    · exact within_pure hR.refl _
  | completeIdempotentRequest operation' key' fingerprint' statusCode body headers =>
    have hne : (operation, key) ≠ (operation', key') := by rintro ⟨⟩; simp [writesRecord] at h
    refine hR.void (SameRecord.identified (within_bind hR.trans (within_get hR.refl) fun memory => ?_))
    refine within_bind hR.trans (SameRecord.putRecord hne _) fun _ => ?_
    split
    · exact within_raise hR.refl _
    split
    · exact within_pure hR.refl _
    refine within_bind hR.trans (within_check hR.refl _) fun response => ?_
    exact within_bind hR.trans (SameRecord.putRecord hne _) fun _ => within_pure hR.refl _
  | abortIdempotentRequest operation' key' fingerprint' =>
    have hne : (operation, key) ≠ (operation', key') := by rintro ⟨⟩; simp [writesRecord] at h
    refine hR.void (SameRecord.identified (within_bind hR.trans (within_get hR.refl) fun memory => ?_))
    split
    · exact within_pure hR.refl _
    split
    · exact within_raise hR.refl _
    split
    · exact within_pure hR.refl _
    · exact within_bind hR.trans (SameRecord.erase hne) fun _ => within_pure hR.refl _
  | reset => cases h
  | _ => exact absurd rfl hp

/-- So does a call of it, whether its method or its checkpoint fails. -/
theorem recordOf_apply (o : SetOrder) {op : Op} (h : writesRecord operation key op = false) (disk : Bool)
    (s : SqliteStore) : recordOf operation key (op.apply o disk s).2 = recordOf operation key s := by
  have hm := SameRecord.method o h s.memory
  have hd : recordOf operation key (Store.durableMutation (op.method o) disk s).2 = recordOf operation key s := by
    cases hr : Store.durableMutation (op.method o) disk s with
    | mk r s' =>
      have hmem := durableMutation_memory (op.method o) disk s
      rw [hr] at hmem
      unfold recordOf
      cases r with
      | ok u => rw [(hmem.1 rfl).2]; exact hm
      | error raised =>
        rcases hmem.2 raised rfl with ⟨fault, hf⟩ | hrest
        · rw [hf] at hm; exact hm
        · rw [hrest, idempotency_restore]
  cases op with
  | reset => cases h
  | job r op =>
    unfold Op.apply
    dsimp only
    split
    · split <;> rfl
    · rfl
  | _ => exact hd

end AutomlApi.Requests
