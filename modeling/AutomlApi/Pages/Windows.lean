import AutomlApi.Pages.Numbers
import AutomlApi.Store.Touches

/-! What the pages of a run are cut from: its entry, its log and its outputs. Steps of the
store that record as the services do leave alone what has been there; an output that is
committed under a number of its own comes after all of it. -/

namespace AutomlApi.Pages

open Runs (Run)
open Store (Fields Value Memory SetOrder SqliteStore Shelf Terms Touches New Resembles Sequenced logOf outputsOf patched)

/-! ### Steps that record -/

/-- The event says its type, and of a failure whether it can be retried. -/
def Plain (event : Fields) : Prop :=
  ∃ type, event.get "type" = some (.str type) ∧
    (type = "run.failed.v1" → ∃ payload, event.get "payload" = some (.dict payload) ∧ Dict.has payload "retriable")

/-- Runs start with no events, are retained from the first, and stay with their tenant; the
outputs of one run are the `new` ones. -/
def recorded (runId : String) (new : Fields → Prop) : Terms where
  created shelf given :=
    (shelf = .runs → given.get "snapshot_seq" = some (.int 0) ∧ given.get "retained_from_seq" = some (.int 1)) ∧
      (shelf = .outputs runId → new given)
  changed shelf changes :=
    (shelf = .runs → changes.get "tenant_id" = none ∧ changes.get "retained_from_seq" = none) ∧
      ∀ runId, shelf ≠ .outputs runId
  logged := Plain

/-- A call that records as the services do. An output of the run is created alone, where it
may be. -/
def RecordsCall (runId : String) (new : Memory → Fields → Prop) (m : Memory) (op : Store.Op) : Prop :=
  op.Meets (recorded runId fun _ => False) ∨
    ∃ value, op = .createOutput runId value ∧ Store.Meets (new m) value

/-- A step of a history of such calls. -/
def Records (runId : String) (new : Memory → Fields → Prop) (s : SqliteStore) : Store.Event → Prop
  | .call _ op => op = .reset ∨ RecordsCall runId new s.memory op
  | _ => True

/-- The process goes on with such calls. -/
def GoesOn (runId : String) (new : Memory → Fields → Prop) (s : SqliteStore) : Store.Event → Prop
  | .call _ op => RecordsCall runId new s.memory op
  | .reopen => False
  | _ => True

/-- `run["snapshot_seq"]`. -/
def snapshotSeq (m : Memory) (runId : String) : ℤ :=
  match ((m.runs.get runId).getD []).get "snapshot_seq" with
  | some (.int n) => n
  | _ => 0

/-- The output is created under a number that the run's events and outputs have not had. -/
def OwnNumber (runId : String) (m : Memory) (given : Fields) : Prop :=
  ∃ n : ℤ, given.get "created_seq" = some (.int n) ∧ snapshotSeq m runId < n ∧
    ∀ id output, (outputsOf m runId).get id = some output → createdSeqOf output ≠ n

/-! ### What stays of a run -/

/-- What the pages of events rely on. -/
structure Clear (runId : String) (m : Memory) : Prop where
  retained : ∀ run, m.runs.get runId = some run → run.get "retained_from_seq" = some (.int 1)
  plain : ∀ event ∈ logOf m runId, Plain event

/-- What the pages of outputs rely on as well: no two outputs have one number. -/
structure Apart (runId : String) (m : Memory) : Prop extends Clear runId m where
  named : ∀ id output, (outputsOf m runId).get id = some output → output.get "output_id" = some (.str id)
  numbered : ∀ id output, (outputsOf m runId).get id = some output → ∃ n : ℤ, output.get "created_seq" = some (.int n)
  apart : ∀ id id' output output', (outputsOf m runId).get id = some output →
    (outputsOf m runId).get id' = some output' → createdSeqOf output = createdSeqOf output' → id = id'
  nodup : ((outputsOf m runId).map Prod.fst).Nodup

/-- The run stays with its tenant, and its log only grows. -/
structure Grown (runId : String) (s t : Memory) : Prop where
  entry : ∀ run, s.runs.get runId = some run → ∃ run', t.runs.get runId = some run' ∧
    run'.get "tenant_id" = run.get "tenant_id"
  log : logOf s runId <+: logOf t runId

/-- Its outputs stay as well, and the new ones have later numbers than its log had. -/
structure GrownApart (runId : String) (s t : Memory) : Prop extends Grown runId s t where
  stays : ∀ id output, (outputsOf s runId).get id = some output → (outputsOf t runId).get id = some output
  later : ∀ id output, (outputsOf t runId).get id = some output →
    (outputsOf s runId).get id = some output ∨ ((logOf s runId).length : ℤ) < createdSeqOf output

theorem Grown.refl (runId : String) (s : Memory) : Grown runId s s := ⟨fun run h => ⟨run, h, rfl⟩, List.prefix_rfl⟩

theorem Grown.trans {runId : String} {s t u : Memory} (h : Grown runId s t) (h' : Grown runId t u) : Grown runId s u where
  entry run hrun := by
    obtain ⟨run', hrun', heq⟩ := h.entry run hrun
    obtain ⟨run'', hrun'', heq'⟩ := h'.entry run' hrun'
    exact ⟨run'', hrun'', heq'.trans heq⟩
  log := h.log.trans h'.log

theorem GrownApart.refl (runId : String) (s : Memory) : GrownApart runId s s :=
  ⟨.refl runId s, fun _ _ h => h, fun _ _ h => .inl h⟩

theorem GrownApart.trans {runId : String} {s t u : Memory} (h : GrownApart runId s t) (h' : GrownApart runId t u) :
    GrownApart runId s u where
  toGrown := h.toGrown.trans h'.toGrown
  stays id output houtput := h'.stays id output (h.stays id output houtput)
  later id output houtput := by
    rcases h'.later id output houtput with houtput | hlater
    · exact h.later id output houtput
    · exact .inr (lt_of_le_of_lt (Int.ofNat_le.mpr h.log.length_le) hlater)

/-- What every recording keeps of a run. -/
def KeepsClear (runId : String) : Memory → Memory → Prop :=
  Runs.Keeps (Clear runId) (fun m => m.runs.has runId) (Grown runId)

/-- What it keeps if no two outputs come under one number. -/
def KeepsApart (runId : String) : Memory → Memory → Prop :=
  Runs.Keeps (Apart runId) (fun m => m.runs.has runId) (GrownApart runId)

theorem keepsClear_refl (runId : String) (s : Memory) : KeepsClear runId s s := Runs.Keeps.refl (Grown.refl runId) s

theorem keepsClear_trans (runId : String) (s t u : Memory) (h : KeepsClear runId s t) (h' : KeepsClear runId t u) :
    KeepsClear runId s u :=
  Runs.Keeps.trans (P := Clear runId) (A := fun m => m.runs.has runId) (R := Grown runId) (fun _ _ _ => Grown.trans)
    s t u h h'

theorem keepsApart_refl (runId : String) (s : Memory) : KeepsApart runId s s :=
  Runs.Keeps.refl (GrownApart.refl runId) s

theorem keepsApart_trans (runId : String) (s t u : Memory) (h : KeepsApart runId s t) (h' : KeepsApart runId t u) :
    KeepsApart runId s u :=
  Runs.Keeps.trans (P := Apart runId) (A := fun m => m.runs.has runId) (R := GrownApart runId)
    (fun _ _ _ => GrownApart.trans) s t u h h'

/-! ### One write -/

section

variable {runId : String} {m₀ s t : Memory} {new : Fields → Prop}

theorem Plain.resembles {event given : Fields} (h : Plain given) (hgiven : Resembles event given) : Plain event := by
  obtain ⟨type, htype, hfailed⟩ := h
  refine ⟨type, (hgiven _ (by decide)).trans htype, fun heq => ?_⟩
  obtain ⟨payload, hpayload, hretriable⟩ := hfailed heq
  exact ⟨payload, (hgiven _ (by decide)).trans hpayload, hretriable⟩

/-- The run is as it was, but for the fields of its entry that may change. -/
theorem keepsClear_of_entry (hrun : ∀ run', t.runs.get runId = some run' → ∃ run, s.runs.get runId = some run ∧
      run'.get "tenant_id" = run.get "tenant_id" ∧ run'.get "retained_from_seq" = run.get "retained_from_seq")
    (hhas : s.runs.has runId → t.runs.has runId) (hlog : logOf s runId <+: logOf t runId)
    (hplain : ∀ event ∈ logOf t runId, event ∈ logOf s runId ∨ Plain event) : KeepsClear runId s t := fun h => by
  refine ⟨⟨fun run' hget => ?_, fun event hmem => ?_⟩, fun ha => ⟨hhas ha, fun run hget => ?_, hlog⟩⟩
  · obtain ⟨run, hold, -, heq⟩ := hrun run' hget
    exact heq.trans (h.retained run hold)
  · exact (hplain event hmem).elim (h.plain event) fun h => h
  · obtain ⟨run', hget'⟩ := Option.isSome_iff_exists.mp (hhas ha)
    obtain ⟨run₁, hold, heq, -⟩ := hrun run' hget'
    rw [hget] at hold
    cases hold
    exact ⟨run', hget', heq⟩

theorem keepsClear_touches (h : Touches m₀ (recorded runId new) runId s t) : KeepsClear runId s t := by
  cases h with
  | spares hrun hlog houtputs | adds hc hnew hrun hlog houtputs | revises hu hget hrun hlog houtputs =>
    exact keepsClear_of_entry (fun run' hget => ⟨run', hrun ▸ hget, rfl, rfl⟩)
      (fun ha => (congrArg Option.isSome hrun).trans ha) (hlog ▸ List.prefix_rfl) fun event hmem => .inl (hlog ▸ hmem)
  | opens hc hnew hrun hlog houtputs =>
    have hfree : s.runs.get runId = none := hnew.free
    refine fun _ => ⟨⟨fun run hget => ?_, fun event hmem => ?_⟩, fun ha => ?_⟩
    · rw [hrun] at hget
      cases hget
      rw [hnew.rest _ (by decide) (by decide)]
      exact (hc.1 rfl).2
    · rw [hlog] at hmem
      cases hmem
    · exact absurd ((congrArg Option.isSome hfree).symm.trans ha) Bool.false_ne_true
  | patches hu hget hrun hlog houtputs =>
    rename_i current changes revision
    refine keepsClear_of_entry (fun run' hrun' => ⟨current, hget, ?_, ?_⟩) (fun _ => Dict.has_of_get hrun)
      (hlog ▸ List.prefix_rfl) fun event hmem => .inl (hlog ▸ hmem)
    all_goals
      rw [hrun] at hrun'
      cases hrun'
    · exact Store.get_patched (by decide) (hu.1 rfl).1 ..
    · exact Store.get_patched (by decide) (hu.1 rfl).2 ..
  | logs he hgiven hget hrun hlog houtputs =>
    rename_i current given event
    refine keepsClear_of_entry (fun run' hrun' => ⟨current, hget, ?_, ?_⟩) (fun _ => Dict.has_of_get hrun)
      (hlog ▸ List.prefix_append _ _) fun event' hmem => ?_
    · rw [hrun] at hrun'
      cases hrun'
      rw [Dict.get_set, if_neg (by decide)]
    · rw [hrun] at hrun'
      cases hrun'
      rw [Dict.get_set, if_neg (by decide)]
    · rw [hlog] at hmem
      rcases List.mem_append.mp hmem with hmem | hmem
      · exact .inl hmem
      · rw [List.mem_singleton.mp hmem]
        exact .inr (he.resembles hgiven)

/-- Outputs stay apart where they are left alone. -/
theorem keepsApart_of_outputs (hclear : KeepsClear runId s t) (houtputs : s.runs.has runId → outputsOf t runId = outputsOf s runId)
    (hopened : s.runs.has runId = false → outputsOf t runId = outputsOf s runId ∨ outputsOf t runId = []) :
    KeepsApart runId s t := fun h => by
  obtain ⟨hclear', hgrown⟩ := hclear h.toClear
  have hcases : outputsOf t runId = outputsOf s runId ∨ outputsOf t runId = [] := by
    cases ha : s.runs.has runId with
    | true => exact .inl (houtputs ha)
    | false => exact hopened ha
  refine ⟨?_, fun ha => ⟨(hgrown ha).1, (hgrown ha).2, fun id output houtput => ?_, fun id output houtput => .inl ?_⟩⟩
  · rcases hcases with heq | heq
    · exact ⟨hclear', heq ▸ h.named, heq ▸ h.numbered, heq ▸ h.apart, heq ▸ h.nodup⟩
    · refine ⟨hclear', ?_, ?_, ?_, heq ▸ List.nodup_nil⟩ <;> rw [heq] <;> nofun
  · rwa [houtputs ha]
  · rwa [houtputs ha] at houtput

theorem keepsApart_touches (h : Touches m₀ (recorded runId fun _ => False) runId s t) : KeepsApart runId s t := by
  have hclear := keepsClear_touches h
  cases h with
  | spares hrun hlog houtputs | patches hu hget hrun hlog houtputs | logs he hgiven hget hrun hlog houtputs =>
    exact keepsApart_of_outputs hclear (fun _ => houtputs) fun _ => .inl houtputs
  | opens hc hnew hrun hlog houtputs =>
    have hfree : s.runs.get runId = none := hnew.free
    refine keepsApart_of_outputs hclear (fun ha => ?_) fun _ => .inr houtputs
    exact absurd ((congrArg Option.isSome hfree).symm.trans ha) Bool.false_ne_true
  | adds hc => exact (hc.2 rfl).elim
  | revises hu => exact absurd rfl (hu.2 runId)

/-- An output under a number of its own. -/
theorem keepsApart_adds {m : Memory} {given output : Fields} {id : String} (hclear : KeepsClear runId s t)
    (hnumber : OwnNumber runId s given) (hsnapshot : s.runs.has runId → snapshotSeq s runId = (logOf s runId).length)
    (hnew : New m s (.outputs runId) given output id)
    (houtputs : outputsOf t runId = (outputsOf s runId).set id output) : KeepsApart runId s t := fun h => by
  obtain ⟨n, hn, hlater, hother⟩ := hnumber
  obtain ⟨hclear', hgrown⟩ := hclear h.toClear
  have hcreated : output.get "created_seq" = some (.int n) := (hnew.rest _ (show "created_seq" ≠ "output_id" by decide) (show "created_seq" ∉ ["run_id"] by decide)).trans hn
  have hseq : createdSeqOf output = n := by
    rw [createdSeqOf, hcreated]
    rfl
  have hget : ∀ {id' output'}, (outputsOf t runId).get id' = some output' →
      id' = id ∧ output' = output ∨ id' ≠ id ∧ (outputsOf s runId).get id' = some output' := fun {id' output'} hid' => by
    rw [houtputs, Dict.get_set] at hid'
    split at hid'
    · cases hid'
      exact .inl ⟨‹_›, rfl⟩
    · exact .inr ⟨‹_›, hid'⟩
  refine ⟨⟨hclear', fun id' output' hid' => ?_, fun id' output' hid' => ?_, fun id₁ id₂ output₁ output₂ h₁ h₂ heq => ?_,
    houtputs ▸ Dict.nodup_set h.nodup id output⟩, fun ha => ⟨(hgrown ha).1, (hgrown ha).2, fun id' output' hid' => ?_,
    fun id' output' hid' => ?_⟩⟩
  · rcases hget hid' with ⟨rfl, rfl⟩ | ⟨-, hid'⟩
    · exact hnew.named
    · exact h.named id' output' hid'
  · rcases hget hid' with ⟨rfl, rfl⟩ | ⟨-, hid'⟩
    · exact ⟨n, hcreated⟩
    · exact h.numbered id' output' hid'
  · rcases hget h₁ with ⟨rfl, rfl⟩ | ⟨-, h₁⟩ <;> rcases hget h₂ with ⟨rfl, rfl⟩ | ⟨-, h₂⟩
    · rfl
    · exact absurd (heq.symm.trans hseq) (hother _ _ h₂)
    · exact absurd (heq.trans hseq) (hother _ _ h₁)
    · exact h.apart id₁ id₂ output₁ output₂ h₁ h₂ heq
  · have hne : id' ≠ id := by
      rintro rfl
      exact Option.some_ne_none _ (hid'.symm.trans hnew.free)
    rw [houtputs, Dict.get_set, if_neg hne]
    exact hid'
  · rcases hget hid' with ⟨rfl, rfl⟩ | ⟨-, hid'⟩
    · rw [hseq, ← hsnapshot ha]
      exact .inr hlater
    · exact .inl hid'

end

/-! ### Calls -/

section

variable {runId : String} {m : Memory} {new : Memory → Fields → Prop} {op : Store.Op}

theorem keepsClear_method (o : SetOrder) (h : RecordsCall runId new m op) : KeepsClear runId m (op.method o m).2 := by
  have hwrites : ∀ new, op.Meets (recorded runId new) → KeepsClear runId m (op.method o m).2 :=
    fun _ hmeets => (Store.Op.writes o hmeets).climb (keepsClear_refl runId) (keepsClear_trans runId) fun hwrite =>
      keepsClear_touches (Store.write_touches hwrite runId)
  rcases h with h | ⟨value, rfl, -⟩
  · exact hwrites _ h
  · refine hwrites (fun _ => True) ?_
    cases value <;> first | trivial | exact ⟨nofun, fun _ => trivial⟩

theorem keepsApart_method (o : SetOrder) (hm : m.runs.has runId → snapshotSeq m runId = (logOf m runId).length)
    (h : RecordsCall runId (OwnNumber runId) m op) : KeepsApart runId m (op.method o m).2 := by
  rcases h with h | ⟨value, rfl, hvalue⟩
  · exact (Store.Op.writes o h).climb (keepsApart_refl runId) (keepsApart_trans runId) fun hwrite =>
      keepsApart_touches (Store.write_touches hwrite runId)
  · obtain ⟨t, hwrites, hcases⟩ := Store.createOutput_cases runId value m
    obtain ⟨hrun, hlog, houtputs⟩ := Store.spares_of_nothing hwrites runId
    have hspared : KeepsApart runId m t := keepsApart_touches
      (show Touches m (recorded runId fun _ => False) runId m t from .spares hrun hlog houtputs)
    rw [Store.Op.method, Store.LogFrame.void_snd]
    rcases hcases with heq | ⟨given, output, id, rfl, hnew, heq⟩
    · rw [heq]
      exact hspared
    · rw [heq]
      have hnumber : OwnNumber runId t given := by
        rw [OwnNumber, snapshotSeq, hrun, houtputs]
        exact hvalue
      have hsnapshot : t.runs.has runId → snapshotSeq t runId = (logOf t runId).length := by
        rw [snapshotSeq, Dict.has, hrun, hlog]
        exact hm
      have hadds : Touches m (recorded runId fun _ => True) runId t
          ((Shelf.outputs runId).put t ((outputsOf t runId).set id output)) :=
        Store.write_touches (.insert (And.intro (by simp) fun _ => trivial) hnew (by simp)) runId
      refine keepsApart_trans runId _ _ _ hspared (keepsApart_adds (keepsClear_touches hadds) hnumber hsnapshot hnew ?_)
      rw [outputsOf, Shelf.items_put, if_pos rfl]

end

/-! ### Restarts -/

theorem Plain.encoded {event event' : Fields} (h : Plain event) (hencoded : Value.encodeFields event = some event') :
    Plain event' := by
  obtain ⟨type, htype, hfailed⟩ := h
  have hget : ∀ k, (event.get k).map Value.encode = (event'.get k).map some :=
    Dict.get_written hencoded
  refine ⟨type, ?_, fun heq => ?_⟩
  · rw [← Store.get_encodeFields hencoded, htype]
    rfl
  · obtain ⟨payload, hpayload, hretriable⟩ := hfailed heq
    have hnew := hget "payload"
    rw [hpayload] at hnew
    obtain ⟨value, hvalue, hencode⟩ := Option.map_eq_some_iff.mp hnew.symm
    rw [Value.encode_dict] at hencode
    obtain ⟨payload', hfields, rfl⟩ := Option.map_eq_some_iff.mp hencode.symm
    refine ⟨payload', hvalue, ?_⟩
    rwa [Dict.has_written hfields]

theorem clear_restore {runId : String} {m snapshot : Memory} (h : Clear runId m)
    (hserialised : Store.serialise m = some snapshot) : Clear runId (Store.restore snapshot) := by
  refine ⟨fun run' hrun' => ?_, fun event' hmem => ?_⟩
  · have hruns : m.runs.written Value.encodeFields = some snapshot.runs := Store.items_serialised hserialised .runs
    have hget := Dict.get_written hruns runId
    rw [show snapshot.runs.get runId = some run' from hrun'] at hget
    obtain ⟨run, hrun, hencoded⟩ := Option.map_eq_some_iff.mp hget
    rw [← Store.get_encodeFields hencoded, h.retained run hrun]
    rfl
  · have hall := Store.forall₂_of_mapM (Store.logOf_serialised hserialised runId)
    obtain ⟨i, hi, rfl⟩ := List.getElem_of_mem hmem
    have hi' : i < (logOf m runId).length := hall.length_eq ▸ hi
    exact (h.plain _ (List.getElem_mem hi')).encoded (hall.get hi' hi)

theorem apart_restore {runId : String} {m snapshot : Memory} (h : Apart runId m)
    (hserialised : Store.serialise m = some snapshot) : Apart runId (Store.restore snapshot) := by
  have hitems : (outputsOf m runId).written Value.encodeFields = some (outputsOf snapshot runId) :=
    Store.items_serialised hserialised (.outputs runId)
  have hrestored : outputsOf (Store.restore snapshot) runId = outputsOf snapshot runId := Store.items_restore ..
  -- each output is that of an output before
  have hold : ∀ {id output'}, (outputsOf snapshot runId).get id = some output' → ∃ output,
      (outputsOf m runId).get id = some output ∧ Value.encodeFields output = some output' := fun {id output'} houtput => by
    have hget := Dict.get_written hitems id
    rw [houtput] at hget
    exact Option.map_eq_some_iff.mp hget
  have hsame : ∀ {id output output'}, (outputsOf m runId).get id = some output →
      Value.encodeFields output = some output' → ∃ n : ℤ, output'.get "created_seq" = some (.int n) ∧
        createdSeqOf output' = createdSeqOf output := fun {id output output'} hget hencoded => by
    obtain ⟨n, hn⟩ := h.numbered id output hget
    have hn' : output'.get "created_seq" = some (.int n) := by
      rw [← Store.get_encodeFields hencoded, hn]
      rfl
    exact ⟨n, hn', by rw [createdSeqOf, createdSeqOf, hn, hn']⟩
  refine ⟨clear_restore h.toClear hserialised, ?_, ?_, ?_, ?_⟩
  all_goals rw [hrestored]
  · intro id output' houtput
    obtain ⟨output, hget, hencoded⟩ := hold houtput
    rw [← Store.get_encodeFields hencoded, h.named id output hget]
    rfl
  · intro id output' houtput
    obtain ⟨output, hget, hencoded⟩ := hold houtput
    obtain ⟨n, hn, -⟩ := hsame hget hencoded
    exact ⟨n, hn⟩
  · intro id₁ id₂ output₁ output₂ h₁ h₂ heq
    obtain ⟨_, hget₁, hencoded₁⟩ := hold h₁
    obtain ⟨_, hget₂, hencoded₂⟩ := hold h₂
    obtain ⟨-, -, heq₁⟩ := hsame hget₁ hencoded₁
    obtain ⟨-, -, heq₂⟩ := hsame hget₂ hencoded₂
    exact h.apart id₁ id₂ _ _ hget₁ hget₂ (heq₁.symm.trans (heq.trans heq₂))
  · exact (Dict.keys_written hitems).nodup_iff.mpr h.nodup

/-! ### Histories -/

section

variable {o : SetOrder} {runId : String} {new : Memory → Fields → Prop}

theorem clear_empty (runId : String) : Clear runId .empty := ⟨nofun, nofun⟩

theorem apart_empty (runId : String) : Apart runId .empty := ⟨clear_empty runId, nofun, nofun, nofun, List.nodup_nil⟩

/-- Such calls create their runs with no events behind them. -/
theorem orderly_of_records {s : SqliteStore} {e : Store.Event} (h : Records runId new s e) : e.orderly := by
  cases e with
  | call disk op =>
    cases op with
    | createRun value =>
      rcases h with h | h | ⟨_, h, -⟩
      · cases h
      · cases value with
        | dict fields =>
          have hstart := (h.1 rfl).1
          simp only [Store.Event.orderly, Store.startsEmpty]
          cases hget : Dict.get fields "snapshot_seq" with
          | none => rfl
          | some v =>
            rw [Dict.get_setDefault_of_get (Dict.get_setDefault_of_get hget _ _)] at hstart
            cases hstart
            rfl
        | _ => rfl
      · cases h
    | _ => rfl
  | _ => rfl

theorem goesOn_records {s : SqliteStore} {e : Store.Event} (h : GoesOn runId new s e) : Records runId new s e := by
  cases e with
  | call disk op => exact .inr h
  | _ => trivial

theorem snapshotSeq_eq {m : Memory} (hm : m.Orderly) (h : m.runs.has runId) : snapshotSeq m runId = (logOf m runId).length := by
  rw [snapshotSeq, (hm.runs runId h).snapshot]

/-- The dictionaries that are opened by a reading are no part of the run. -/
theorem touches_opened {T : Terms} (m : Memory) (id : String) :
    Touches m T runId m (Store.openApprovals id m) ∧ Touches m T runId m (Store.openDeliveries id m) :=
  ⟨Store.write_touches (.openApprovals m id) runId, Store.write_touches (.openDeliveries m id) runId⟩

theorem keepsClear_step {s : SqliteStore} (hs : s.memory.Inv) {e : Store.Event} (he : GoesOn runId new s e) :
    KeepsClear runId s.memory (s.step o e).memory := by
  refine Store.step_climbs (keepsClear_refl runId) hs (fun h => ?_) (fun disk op h => ?_)
    (fun id => keepsClear_touches (touches_opened (T := recorded runId fun _ => False) _ id).1)
    fun id => keepsClear_touches (touches_opened (T := recorded runId fun _ => False) _ id).2
  · subst h
    exact he.elim
  · subst h
    refine ⟨fun hreset => ?_, keepsClear_method o he⟩
    subst hreset
    rcases he with he | ⟨_, he, -⟩
    · exact he.elim
    · cases he

theorem keepsApart_step {s : SqliteStore} (hs : s.memory.Orderly) {e : Store.Event}
    (he : GoesOn runId (OwnNumber runId) s e) : KeepsApart runId s.memory (s.step o e).memory := by
  refine Store.step_climbs (keepsApart_refl runId) hs.inv (fun h => ?_) (fun disk op h => ?_)
    (fun id => keepsApart_touches (touches_opened _ id).1) fun id => keepsApart_touches (touches_opened _ id).2
  · subst h
    exact he.elim
  · subst h
    refine ⟨fun hreset => ?_, keepsApart_method o (snapshotSeq_eq hs) he⟩
    subst hreset
    rcases he with he | ⟨_, he, -⟩
    · exact he.elim
    · cases he

/-- Every history of such calls, with restarts and failures of the disk, leaves the events
as the pages rely on them. -/
theorem clear_run {es : List Store.Event} {s : SqliteStore}
    (h : Run (fun s e => some (SqliteStore.step o s e)) (Records runId new) .init es s) :
    s.Orderly ∧ s.Holds (Clear runId) := by
  refine h.invariant (I := fun s => s.Orderly ∧ s.Holds (Clear runId)) (fun s e u hs he hu => ?_)
    ⟨Store.orderly_init, clear_empty runId, clear_empty runId⟩
  cases hu
  refine ⟨Store.orderly_step o hs.1 (orderly_of_records he), ?_⟩
  have hmemory := hs.2.memory
  refine hs.2.step hs.1.memory.inv (clear_empty runId) clear_restore (fun disk op h hreset => ?_)
    (fun id => (keepsClear_touches (touches_opened (T := recorded runId fun _ => False) _ id).1 hmemory).1)
    fun id => (keepsClear_touches (touches_opened (T := recorded runId fun _ => False) _ id).2 hmemory).1
  subst h
  exact (keepsClear_method o (he.resolve_left hreset) hmemory).1

/-- If every output was created under a number of its own, so are the outputs. -/
theorem apart_run {es : List Store.Event} {s : SqliteStore}
    (h : Run (fun s e => some (SqliteStore.step o s e)) (Records runId (OwnNumber runId)) .init es s) :
    s.Orderly ∧ s.Holds (Apart runId) := by
  refine h.invariant (I := fun s => s.Orderly ∧ s.Holds (Apart runId)) (fun s e u hs he hu => ?_)
    ⟨Store.orderly_init, apart_empty runId, apart_empty runId⟩
  cases hu
  refine ⟨Store.orderly_step o hs.1 (orderly_of_records he), ?_⟩
  have hmemory := hs.2.memory
  refine hs.2.step hs.1.memory.inv (apart_empty runId) apart_restore (fun disk op h hreset => ?_)
    (fun id => (keepsApart_touches (touches_opened _ id).1 hmemory).1)
    fun id => (keepsApart_touches (touches_opened _ id).2 hmemory).1
  subst h
  exact (keepsApart_method o (snapshotSeq_eq hs.1.memory) (he.resolve_left hreset) hmemory).1

theorem keepsClear_run_on {es : List Store.Event} {s t : SqliteStore} (hs : s.Orderly)
    (h : Run (fun s e => some (SqliteStore.step o s e)) (GoesOn runId new) s es t) :
    t.Orderly ∧ KeepsClear runId s.memory t.memory := by
  induction h with
  | nil s => exact ⟨hs, keepsClear_refl runId _⟩
  | cons he hu _ ih =>
    cases hu
    obtain ⟨horderly, hkeeps⟩ := ih (Store.orderly_step o hs (orderly_of_records (goesOn_records he)))
    exact ⟨horderly, keepsClear_trans runId _ _ _ (keepsClear_step hs.memory.inv he) hkeeps⟩

theorem keepsApart_run_on {es : List Store.Event} {s t : SqliteStore} (hs : s.Orderly)
    (h : Run (fun s e => some (SqliteStore.step o s e)) (GoesOn runId (OwnNumber runId)) s es t) :
    t.Orderly ∧ KeepsApart runId s.memory t.memory := by
  induction h with
  | nil s => exact ⟨hs, keepsApart_refl runId _⟩
  | cons he hu _ ih =>
    cases hu
    obtain ⟨horderly, hkeeps⟩ := ih (Store.orderly_step o hs (orderly_of_records (goesOn_records he)))
    exact ⟨horderly, keepsApart_trans runId _ _ _ (keepsApart_step hs.memory he) hkeeps⟩

end

end AutomlApi.Pages
