import Mathlib.Logic.Relation
import AutomlApi.Store.Compound

/-! What the operations write, one write at a time: a counter, a new item, a change to an
item that is there, an entry of a run or of its log. Whatever holds across each kind of
write holds across every operation. -/

namespace AutomlApi.Store

open Act
open Relation (ReflTransGen)

/-! ### Where the resources are -/

/-- The dictionaries of resources. -/
inductive Shelf where
  | datasets | datasetVersions | runs | commands | artifacts | models | webhookEndpoints | deletions
  | outputs (runId : String)
  | decisionPackets (runId : String)
  | approvals (runId : String)
  | webhookDeliveries (endpointId : String)
  deriving DecidableEq

namespace Shelf

def collection : Shelf → Collection
  | datasets => .datasets
  | datasetVersions => .datasetVersions
  | runs => .runs
  | commands => .commands
  | artifacts => .artifacts
  | models => .models
  | webhookEndpoints => .webhookEndpoints
  | deletions => .deletions
  | outputs runId => .outputs runId
  | decisionPackets runId => .decisionPackets runId
  | approvals runId => .approvals runId
  | webhookDeliveries endpointId => .webhookDeliveries endpointId

def idField : Shelf → String
  | datasets => "dataset_id"
  | datasetVersions => "dataset_version_id"
  | runs => "run_id"
  | commands => "command_id"
  | artifacts => "artifact_id"
  | models => "model_id"
  | webhookEndpoints => "webhook_endpoint_id"
  | deletions => "deletion_id"
  | outputs _ => "output_id"
  | decisionPackets _ => "decision_packet_id"
  | approvals _ => "approval_id"
  | webhookDeliveries _ => "delivery_id"

/-- What the ids start with. -/
def kind : Shelf → String
  | datasets => "ds"
  | datasetVersions => "dsv"
  | runs => "run"
  | commands => "cmd"
  | artifacts => "art"
  | models => "mdl"
  | webhookEndpoints => "wh"
  | deletions => "del"
  | outputs _ => "out"
  | decisionPackets _ => "dp"
  | approvals _ => "apr"
  | webhookDeliveries _ => "whd"

/-- The field that names the parent of an item. -/
def parents : Shelf → List String
  | datasetVersions => ["dataset_id"]
  | outputs _ | decisionPackets _ | approvals _ => ["run_id"]
  | webhookDeliveries _ => ["webhook_endpoint_id"]
  | _ => []

def items (shelf : Shelf) (m : Memory) : Dict String Fields := shelf.collection.get m

def put (shelf : Shelf) (m : Memory) (d : Dict String Fields) : Memory := shelf.collection.put m d

/-- An item that comes without an id. -/
def anonymous (shelf : Shelf) (given : Fields) : Bool :=
  match given.get shelf.idField with
  | none | some .null => true
  | some _ => false

theorem idField_not_mem_parents (shelf : Shelf) : shelf.idField ∉ shelf.parents := by
  cases shelf <;> simp [idField, parents]

/-- A write to one shelf is a write to no other. -/
theorem items_put (shelf shelf' : Shelf) (m : Memory) (d : Dict String Fields) :
    shelf'.items (shelf.put m d) = if shelf' = shelf then d else shelf'.items m := by
  have hnested : ∀ (all : Dict String (Dict String Fields)) (k l : String),
      ((all.set k d).get l).getD [] = if l = k then d else (all.get l).getD [] := fun all k l => by
    rw [Dict.get_set]
    split <;> rfl
  cases shelf <;> cases shelf' <;>
    simp [items, put, collection, Collection.datasets, Collection.datasetVersions, Collection.runs, Collection.commands,
      Collection.artifacts, Collection.models, Collection.webhookEndpoints, Collection.deletions, Collection.outputs,
      Collection.decisionPackets, Collection.approvals, Collection.webhookDeliveries, hnested]

end Shelf

/-! ### Writes -/

/-- The item that is made of `given`, under its own id or under the one that was drawn
last. The operation has started in `m₀`. -/
structure New (m₀ m : Memory) (shelf : Shelf) (given item : Fields) (id : String) : Prop where
  named : item.get shelf.idField = some (.str id)
  free : (shelf.items m).get id = none
  drawn : shelf.anonymous given → id = formatId shelf.kind (counterOf m shelf.kind)
  own : ¬ shelf.anonymous given →
    given.get shelf.idField = some (.str id) ∧ counterOf m shelf.kind = counterOf m₀ shelf.kind
  rest : ∀ k, k ≠ shelf.idField → k ∉ shelf.parents → item.get k = given.get k

/-- The dictionaries of a new run. -/
def openRun (runId : String) (m : Memory) : Memory :=
  { m with
    events := m.events.set runId []
    eventIds := m.eventIds.set runId []
    outputs := m.outputs.set runId []
    decisionPackets := m.decisionPackets.set runId []
    approvals := m.approvals.set runId [] }

/-- What items are created of, what changes are made to them, and what events are logged. -/
structure Terms where
  created : Shelf → Fields → Prop
  changed : Shelf → Fields → Prop
  logged : Fields → Prop

/-- The fields of an event that the store sets. -/
def stampedFields : List String := ["run_id", "event_id", "seq", "run_revision"]

/-- The event is `given`, but for what the store sets. -/
def Resembles (event given : Fields) : Prop := ∀ k ∉ stampedFields, event.get k = given.get k

/-- Every delivery of an event may be created. -/
def Terms.Delivers (T : Terms) : Prop :=
  ∀ run event endpointId, T.created (.webhookDeliveries endpointId) (delivery run event)

/-- One write of an operation that has started in `m₀`, on the terms `T`. -/
inductive Write (m₀ : Memory) (T : Terms) : Memory → Memory → Prop
  | draw (m : Memory) (kind : String) :
    Write m₀ T m { m with idCounters := m.idCounters.set kind (counterOf m kind + 1) }
  | insert {m : Memory} {shelf : Shelf} {given item : Fields} {id : String} (hc : T.created shelf given)
    (hnew : New m₀ m shelf given item id) (hruns : shelf ≠ .runs) :
    Write m₀ T m (shelf.put m ((shelf.items m).set id item))
  | insertRun {m : Memory} {given item : Fields} {id : String} (hc : T.created .runs given)
    (hnew : New m₀ m .runs given item id) : Write m₀ T m (openRun id (putRun id item m))
  | update {m : Memory} {shelf : Shelf} {id : String} {current changes : Fields} (hu : T.changed shelf changes)
    (hget : (shelf.items m).get id = some current) (hruns : shelf ≠ .runs) :
    Write m₀ T m (shelf.put m ((shelf.items m).set id (current.update (changes.erase shelf.idField))))
  | updateRun {m : Memory} {runId : String} {current changes : Fields} (hu : T.changed .runs changes)
    (hget : m.runs.get runId = some current) (revision : Option ℤ) :
    Write m₀ T m (putRun runId (patched current changes revision) m)
  | log {m : Memory} {runId : String} {given event : Fields} (hrun : m.runs.has runId) (he : T.logged given)
    (hgiven : Resembles event given) : Write m₀ T m (pushEvent runId event m)
  | openApprovals (m : Memory) (runId : String) : Write m₀ T m (openApprovals runId m)
  | openDeliveries (m : Memory) (endpointId : String) : Write m₀ T m (openDeliveries endpointId m)
  | forget (m : Memory) (datasetId : String) : Write m₀ T m { m with datasets := m.datasets.erase datasetId }
  | result (m : Memory) (runId : String) (result : Fields) : Write m₀ T m (putResult runId result m)
  | idempotency (m : Memory) (d : Dict (String × String) IdempotencyRecord) :
    Write m₀ T m { m with idempotency := d }

/-- Writes one after the other. -/
abbrev Writes (m₀ : Memory) (T : Terms) : Memory → Memory → Prop := ReflTransGen (Write m₀ T)

/-- What every write climbs, all of them climb. -/
theorem Writes.climb {m₀ : Memory} {T : Terms} {R : Memory → Memory → Prop} (hrefl : ∀ s, R s s)
    (htrans : ∀ s t u, R s t → R t u → R s u) (hwrite : ∀ {s t}, Write m₀ T s t → R s t) {s t : Memory}
    (h : Writes m₀ T s t) : R s t := by
  induction h with
  | refl => exact hrefl s
  | tail _ hlast ih => exact htrans _ _ _ ih (hwrite hlast)

/-! ### Programs that write so -/

section

variable {m₀ s : Memory} {T : Terms} {α β : Type}

theorem writes_bind {p : StoreM α} {k : α → StoreM β} (hp : Writes m₀ T s (p s).2)
    (hk : ∀ a t, p s = (.ok a, t) → Writes m₀ T t (k a t).2) : Writes m₀ T s ((p >>= k) s).2 := by
  rw [bind_eq]
  cases h : p s with
  | mk r t =>
    rw [h] at hp
    cases r with
    | ok a => exact hp.trans (hk a t h)
    | error fault => exact hp

/-- A first part that only reads. -/
theorem writes_reading {p : StoreM α} {k : α → StoreM β} (hp : (p s).2 = s)
    (hk : ∀ a, p s = (.ok a, s) → Writes m₀ T s (k a s).2) : Writes m₀ T s ((p >>= k) s).2 := by
  refine writes_bind (by rw [hp]) fun a t h => ?_
  rw [h] at hp
  subst hp
  exact hk a h

theorem writes_check {r : Except Fault α} {k : α → StoreM β} (hk : ∀ a, r = .ok a → Writes m₀ T s (k a s).2) :
    Writes m₀ T s ((check r >>= k) s).2 :=
  writes_reading rfl fun a h => hk a (congrArg Prod.fst h)

theorem writes_ite {c : Prop} [Decidable c] {p q : StoreM α} (hp : c → Writes m₀ T s (p s).2)
    (hq : ¬ c → Writes m₀ T s (q s).2) : Writes m₀ T s ((if c then p else q) s).2 := by
  split
  · exact hp ‹_›
  · exact hq ‹_›

theorem reads_requireRun (runId : String) (s : Memory) : (requireRun runId s).2 = s := by
  unfold requireRun
  rw [get_bind]
  split <;> rfl

theorem reads_requireKey (key : String) (d : Memory → Dict String (Dict String Fields)) (s : Memory) :
    (requireKey key d s).2 = s := by
  unfold requireKey
  rw [get_bind]
  split <;> rfl

theorem reads_requireRunOf (item : Fields) (s : Memory) : (requireRunOf item s).2 = s := by
  rw [requireRunOf, get_bind]
  cases item.get "run_id" with
  | none => rfl
  | some v =>
    cases v with
    | str runId =>
      dsimp only
      split <;> rfl
    | _ => rfl

theorem reads_requireEndpoint (endpointId : String) (s : Memory) : (requireEndpoint endpointId s).2 = s := by
  unfold requireEndpoint
  rw [get_bind]
  split <;> rfl

theorem counterOf_draw (m : Memory) (kind kind' : String) :
    counterOf { m with idCounters := m.idCounters.set kind (counterOf m kind + 1) } kind'
      = if kind' = kind then counterOf m kind + 1 else counterOf m kind' := by
  simp only [counterOf, Dict.get_set]
  split <;> rfl

theorem writes_newIdLocked (kind : String) : Writes m₀ T s (newIdLocked kind s).2 := .single (.draw s kind)

theorem get_of_fixFields {resource : String} {fixed item item' : Fields} (h : fixFields resource fixed item = .ok item')
    {k : String} (hk : k ∉ fixed.map Prod.fst) : item'.get k = item.get k := by
  induction fixed generalizing item with
  | nil =>
    cases h
    rfl
  | cons p fixed ih =>
    have hne : k ≠ p.1 := fun heq => hk (heq ▸ List.mem_cons_self)
    have hset : (item.set p.1 p.2).get k = item.get k := by rw [Dict.get_set, if_neg hne]
    have hrest : ∀ {item}, fixFields resource fixed item = .ok item' → item'.get k = item.get k :=
      fun h => ih h fun hmem => hk (List.mem_cons_of_mem _ hmem)
    unfold fixFields at h
    split at h
    · rw [hrest h, hset]
    · rw [hrest h, hset]
    · split at h
      · rw [hrest h, hset]
      · cases h

/-- A creation draws an id if the item has none, and inserts the item. -/
theorem insertLocked_cases (shelf : Shelf) {given : Fields} {resource : String} {fixed : Fields}
    (hfixed : fixed.map Prod.fst = shelf.parents)
    (hs : ¬ shelf.anonymous given → counterOf s shelf.kind = counterOf m₀ shelf.kind) :
    ∃ t, Writes m₀ T s t ∧ (∀ kind ≠ shelf.kind, counterOf t kind = counterOf s kind) ∧ ((∃ fault, insertLocked shelf.collection given shelf.idField shelf.kind resource fixed s
        = (.error fault, t)) ∨ ∃ item id, New m₀ t shelf given item id ∧ id ≠ "" ∧
      insertLocked shelf.collection given shelf.idField shelf.kind resource fixed s
        = (.ok item, shelf.put t ((shelf.items t).set id item))) := by
  rw [insertLocked, check_bind]
  cases hfix : fixFields resource fixed given with
  | error fault => exact ⟨s, .refl, fun _ _ => rfl, .inl ⟨fault, rfl⟩⟩
  | ok item =>
    have hrest : ∀ k, k ∉ shelf.parents → item.get k = given.get k := fun k hk =>
      get_of_fixFields hfix (hfixed ▸ hk)
    have hid : item.get shelf.idField = given.get shelf.idField := hrest _ shelf.idField_not_mem_parents
    dsimp only
    by_cases hanon : shelf.anonymous given
    · -- the id is drawn
      set fresh := formatId shelf.kind (counterOf s shelf.kind + 1) with hfresh
      set t : Memory := { s with idCounters := s.idCounters.set shelf.kind (counterOf s shelf.kind + 1) } with ht
      have hcount : counterOf t shelf.kind = counterOf s shelf.kind + 1 := by rw [ht, counterOf_draw, if_pos rfl]
      have hwith : withId shelf.idField shelf.kind item s = (.ok (item.set shelf.idField (.str fresh)), t) := by
        unfold withId
        rw [hid]
        unfold Shelf.anonymous at hanon
        split at hanon
        · rename_i heq
          rw [heq]
          rfl
        · rename_i heq
          rw [heq]
          rfl
        · cases hanon
      have hreq : requireId shelf.idField resource (item.set shelf.idField (.str fresh)) = .ok fresh := by
        simp only [requireId, Dict.get_set_self, Option.bind_some, Value.nonEmptyString?, hfresh, if_neg (formatId_ne _ _)]
      refine ⟨t, .single (.draw s shelf.kind), fun kind hkind => by rw [ht, counterOf_draw, if_neg hkind], ?_⟩
      rw [bind_of_ok hwith, check_bind, hreq]
      dsimp only
      rw [get_bind]
      split
      · exact .inl ⟨_, rfl⟩
      · rename_i hfree
        refine .inr ⟨_, fresh, ⟨Dict.get_set_self .., by simpa [Dict.has, Shelf.items] using hfree, fun _ => by rw [hcount],
          fun h => absurd hanon h, fun k hk hparent => ?_⟩, formatId_ne _ _, rfl⟩
        rw [Dict.get_set, if_neg hk, hrest k hparent]
    · -- the item brings its id
      have hwith : withId shelf.idField shelf.kind item s = (.ok item, s) := by
        unfold withId
        rw [hid]
        unfold Shelf.anonymous at hanon
        split at hanon
        · exact absurd rfl hanon
        · exact absurd rfl hanon
        · rename_i v hnull hv
          rw [hv]
          cases v with
          | null => exact (hnull rfl).elim
          | _ => rfl
      refine ⟨s, .refl, fun _ _ => rfl, ?_⟩
      rw [bind_of_ok hwith, check_bind]
      cases hreq : requireId shelf.idField resource item with
      | error fault => exact .inl ⟨fault, rfl⟩
      | ok id =>
        obtain ⟨hget, hne⟩ : item.get shelf.idField = some (.str id) ∧ id ≠ "" := by
          unfold requireId at hreq
          split at hreq
          · rename_i id' hsome
            cases hreq
            obtain ⟨v, hv, hstring⟩ := Option.bind_eq_some_iff.mp hsome
            unfold Value.nonEmptyString? at hstring
            split at hstring
            · split at hstring
              · cases hstring
              · rename_i hne
                cases hstring
                exact ⟨hv, hne⟩
            · cases hstring
          · cases hreq
        dsimp only
        rw [get_bind]
        split
        · exact .inl ⟨_, rfl⟩
        · rename_i hfree
          exact .inr ⟨item, id, ⟨hget, by simpa [Dict.has, Shelf.items] using hfree, fun h => absurd h hanon,
            fun h => ⟨hid ▸ hget, hs h⟩, fun k hk hparent => hrest k hparent⟩, hne, rfl⟩

/-- The condition on the fields of a value, if it is a mapping. -/
def Meets (P : Fields → Prop) : Value → Prop
  | .dict fields => P fields
  | _ => True

theorem meets_mono {P Q : Fields → Prop} (hpq : ∀ fields, P fields → Q fields) {value : Value} (h : Meets P value) :
    Meets Q value := by
  cases value with
  | dict fields => exact hpq fields h
  | _ => trivial

theorem meets_of_mapping {P : Fields → Prop} {name : String} {value : Value} {fields : Fields} (h : Meets P value)
    (hmap : mapping name value = .ok fields) : P fields := by
  cases value with
  | dict fields' =>
    simp only [mapping] at hmap
    split at hmap
    · cases hmap
      exact h
    · cases hmap
  | _ => cases hmap

theorem writes_insertLocked (shelf : Shelf) {given : Fields} {resource : String} {fixed : Fields}
    (hfixed : fixed.map Prod.fst = shelf.parents)
    (hs : ¬ shelf.anonymous given → counterOf s shelf.kind = counterOf m₀ shelf.kind) (hc : T.created shelf given)
    (hruns : shelf ≠ .runs) :
    Writes m₀ T s (insertLocked shelf.collection given shelf.idField shelf.kind resource fixed s).2 := by
  obtain ⟨t, ht, -, ⟨fault, h⟩ | ⟨item, id, hnew, -, h⟩⟩ := insertLocked_cases shelf hfixed hs
  · rw [h]
    exact ht
  · rw [h]
    exact ht.tail (.insert hc hnew hruns)

theorem writes_createLocked (shelf : Shelf) {value : Value} {resource : String} {fixed : Fields}
    (hfixed : fixed.map Prod.fst = shelf.parents) (hs : counterOf s shelf.kind = counterOf m₀ shelf.kind)
    (hc : Meets (T.created shelf) value) (hruns : shelf ≠ .runs) :
    Writes m₀ T s (createLocked shelf.collection value shelf.idField shelf.kind resource fixed s).2 :=
  writes_check fun _ hmap =>
    writes_insertLocked shelf hfixed (fun _ => hs) (meets_of_mapping hc hmap) hruns

theorem writes_updateLocked (shelf : Shelf) {id resource : String} {updates : Value} (hu : Meets (T.changed shelf) updates)
    (hruns : shelf ≠ .runs) :
    Writes m₀ T s (updateLocked shelf.collection id updates shelf.idField resource s).2 := by
  rw [updateLocked, get_bind]
  cases hget : (shelf.collection.get s).get id with
  | none => exact .refl
  | some current =>
    refine writes_check fun changes hmap => ?_
    split
    · exact .refl
    · exact .single (.update (meets_of_mapping hu hmap) hget hruns)

theorem writes_createForRun (shelf : Shelf) {value : Value} {resource : String} (hparents : shelf.parents = [])
    (hs : counterOf s shelf.kind = counterOf m₀ shelf.kind) (hc : Meets (T.created shelf) value) (hruns : shelf ≠ .runs) :
    Writes m₀ T s (createForRun shelf.collection value shelf.idField shelf.kind resource s).2 := by
  refine writes_check fun item hmap => writes_reading (reads_requireRunOf item s) fun _ _ => ?_
  exact writes_createLocked shelf hparents.symm hs (meets_of_mapping hc hmap) hruns

theorem writes_onError {p : StoreM α} {cleanup : Memory → Memory} (hp : Writes m₀ T s (p s).2)
    (hclean : ∀ t, Writes m₀ T t (cleanup t)) : Writes m₀ T s (onError p cleanup s).2 := by
  unfold onError
  cases h : p s with
  | mk r t =>
    rw [h] at hp
    cases r with
    | ok a => exact hp
    | error fault => exact hp.trans (hclean t)

theorem writes_createDatasetWithVersion {dataset version : Value} (hdataset : Meets (T.created .datasets) dataset)
    (hversion : Meets (T.created .datasetVersions) version) :
    Writes s T s (createDatasetWithVersion dataset version s).2 := by
  have hfirst : Writes s T s (createLocked .datasets dataset "dataset_id" "ds" "dataset" [] s).2 ∧
      counterOf (createLocked .datasets dataset "dataset_id" "ds" "dataset" [] s).2 "dsv" = counterOf s "dsv" := by
    rw [createLocked, check_bind]
    cases hmap : mapping "dataset" dataset with
    | error fault => exact ⟨.refl, rfl⟩
    | ok given =>
      obtain ⟨t, ht, hcount, h⟩ := @insertLocked_cases s s T .datasets given "dataset" [] rfl fun _ => rfl
      have hdsv := hcount "dsv" (by decide)
      rcases h with ⟨fault, h⟩ | ⟨item, id, hnew, -, h⟩
      · exact ⟨(congrArg Prod.snd h).symm ▸ ht, (congrArg Prod.snd h).symm ▸ hdsv⟩
      · have hinsert := ht.tail (.insert (meets_of_mapping hdataset hmap) hnew (by decide))
        exact ⟨(congrArg Prod.snd h).symm ▸ hinsert, (congrArg Prod.snd h).symm ▸ hdsv⟩
  refine writes_bind hfirst.1 fun created t h => writes_bind ?_ fun _ _ _ => .refl
  have hcount : counterOf t "dsv" = counterOf s "dsv" := by
    have := hfirst.2
    rwa [h] at this
  exact writes_onError (writes_createLocked .datasetVersions rfl hcount hversion (by decide))
    fun t => .single (.forget t _)

theorem writes_createRun {value : Value}
    (hc : Meets (fun item => T.created .runs ((item.setDefault "run_revision" (.int 1)).setDefault "snapshot_seq" (.int 0))) value) :
    Writes s T s (createRun value s).2 := by
  refine writes_check fun item hmap => ?_
  have hgiven := meets_of_mapping hc hmap
  dsimp only
  set given := (item.setDefault "run_revision" (.int 1)).setDefault "snapshot_seq" (.int 0)
  cases hcopy : mapping "run" (.dict given) with
  | error fault =>
    rw [bind_of_error (show createLocked .runs (.dict given) "run_id" "run" "run" [] s = (.error fault, s) by
      rw [createLocked, check_bind, hcopy])]
  | ok given' =>
    have hsame : given' = given := by
      simp only [mapping] at hcopy
      split at hcopy
      · cases hcopy
        rfl
      · cases hcopy
    have hcreate : createLocked .runs (.dict given) "run_id" "run" "run" [] s
        = insertLocked .runs given "run_id" "run" "run" [] s := by
      rw [createLocked, check_bind, hcopy, hsame]
    obtain ⟨t, ht, -, ⟨fault, h⟩ | ⟨created, id, hnew, hne, h⟩⟩ :=
      @insertLocked_cases s s T .runs given "run" [] rfl fun _ => rfl
    · rw [bind_of_error (hcreate.trans h)]
      exact ht
    · have hid : ((created.get "run_id").bind Value.nonEmptyString?).getD "" = id := by
        rw [show created.get "run_id" = _ from hnew.named]
        simp [Value.nonEmptyString?, hne]
      rw [bind_of_ok (hcreate.trans h), modify_bind, hid]
      exact ht.tail (.insertRun hgiven hnew)

/-! ### Events -/

theorem writes_deliver (run event : Fields) (hc : ∀ endpointId, T.created (.webhookDeliveries endpointId) (delivery run event))
    (endpointIds : List String) : Writes m₀ T s (deliver run event endpointIds s).2 := by
  induction endpointIds generalizing s with
  | nil => exact .refl
  | cons endpointId rest ih =>
    rw [deliver_cons]
    cases subscribed s run event endpointId with
    | error fault => exact .refl
    | ok takes =>
      cases takes with
      | false => exact ih
      | true =>
        have hopen : Writes m₀ T s (openDeliveries endpointId s) := .single (.openDeliveries s endpointId)
        have hanon : (Shelf.webhookDeliveries endpointId).anonymous (delivery run event) := by
          rw [Shelf.anonymous, show (delivery run event).get (Shelf.webhookDeliveries endpointId).idField = none from
            (delivery_get run event).2]
        dsimp only
        split
        · exact hopen.trans ih
        · refine hopen.trans (writes_bind ?_ fun _ _ _ => ih)
          exact writes_insertLocked (.webhookDeliveries endpointId) rfl (fun h => absurd hanon h) (hc endpointId)
            (by simp)

theorem Resembles.set {event given : Fields} (h : Resembles event given) {k : String} (hk : k ∈ stampedFields)
    (v : Value) : Resembles (event.set k v) given := fun l hl => by
  have hne : l ≠ k := fun heq => hl (heq ▸ hk)
  rw [Dict.get_set, if_neg hne, h l hl]

theorem Resembles.setDefault {event given : Fields} (h : Resembles event given) {k : String} (hk : k ∈ stampedFields)
    (v : Value) : Resembles (event.setDefault k v) given := by
  unfold Dict.setDefault
  split
  · exact h
  · exact h.set hk v

theorem Resembles.trans {event given given' : Fields} (h : Resembles event given) (h' : Resembles given given') :
    Resembles event given' := fun k hk => (h k hk).trans (h' k hk)

theorem fresh_of_identified {event event' : Fields} {runId : String}
    (h : prepareEvent.identified runId s event = .ok (.fresh event')) : event' = event := by
  unfold prepareEvent.identified at h
  split at h
  · cases h
    rfl
  · cases h
    rfl
  · split at h
    · cases h
    · split at h
      · cases h
      · split at h
        · cases h
          rfl
        · dsimp only at h
          split at h <;> cases h

/-- An event to append is the one that was given. -/
theorem resembles_prepared {runId : String} {value : Value} {event : Fields}
    (h : prepareEvent runId value s = .ok (.fresh event)) : ∃ fields, value = .dict fields ∧ Resembles event fields := by
  unfold prepareEvent at h
  split at h
  · cases h
  · cases hmap : mapping "event" value with
    | error fault =>
      rw [hmap] at h
      cases h
    | ok fields =>
      have hvalue : value = .dict fields := by
        cases value with
        | dict fields' =>
          simp only [mapping] at hmap
          split at hmap
          · cases hmap
            rfl
          · cases hmap
        | _ => cases hmap
      have hset : Resembles (fields.set "run_id" (.str runId)) fields := Resembles.set (fun _ _ => rfl) (by decide) _
      rw [hmap] at h
      simp only [Bind.bind, Except.bind] at h
      refine ⟨fields, hvalue, ?_⟩
      split at h
      · split at h
        · rw [fresh_of_identified h]
          exact hset
        · cases h
      · rw [fresh_of_identified h]
        exact hset

theorem resembles_withId {event event' : Fields} {t : Memory} (h : withId "event_id" "evt" event s = (.ok event', t)) :
    Resembles event' event := by
  have hself : Resembles event event := fun _ _ => rfl
  unfold withId at h
  cases hid : event.get "event_id" with
  | none =>
    rw [hid] at h
    cases h
    exact hself.set (by decide) _
  | some v =>
    rw [hid] at h
    cases v with
    | null =>
      cases h
      exact hself.set (by decide) _
    | _ =>
      cases h
      exact hself

/-- The value may be logged as an event, whatever its run and its revision. -/
def Terms.Logs (T : Terms) : Value → Prop := Meets fun fields => ∃ given, T.logged given ∧ Resembles fields given

theorem writes_recordEvent (o : SetOrder) {runId : String} {value : Value} (hv : T.Logs value) (hc : T.Delivers) :
    Writes m₀ T s (recordEvent o runId value s).2 := by
  refine writes_bind ?_ fun p t _ => ?_
  · rw [appendEventLocked, get_bind]
    cases hprepare : prepareEvent runId value s with
    | error fault => exact .refl
    | ok prepared =>
      cases prepared with
      | existing event => exact .refl
      | fresh event =>
        dsimp only
        cases hlog : s.events.get runId with
        | none => exact .refl
        | some log =>
          have hrun : s.runs.has runId := has_of_prepareEvent hprepare
          obtain ⟨fields, rfl, hfields⟩ := resembles_prepared hprepare
          obtain ⟨given, hlogged, hgiven⟩ := hv
          have hdrawn : Writes m₀ T s (withId "event_id" "evt" event s).2 ∧
              (withId "event_id" "evt" event s).2.runs = s.runs := by
            unfold withId
            cases event.get "event_id" with
            | none => exact ⟨.single (.draw s "evt"), rfl⟩
            | some v =>
              cases v with
              | null => exact ⟨.single (.draw s "evt"), rfl⟩
              | _ => exact ⟨.refl, rfl⟩
          refine writes_bind hdrawn.1 fun named t ht => ?_
          have hruns : t.runs = s.runs := by
            have := hdrawn.2
            rwa [ht] at this
          have hsame := ((resembles_withId ht).trans hfields).trans hgiven
          exact .single (.log (hruns ▸ hrun) hlogged ((hsame.set (by decide) _).setDefault (by decide) _))
  · obtain ⟨event, created⟩ := p
    cases created with
    | false => exact .refl
    | true =>
      refine writes_bind ?_ fun _ _ _ => .refl
      exact writes_check fun ids _ => writes_deliver _ _ (hc _ _) ids

theorem writes_recordRevised (o : SetOrder) {runId : String} {run : Fields} {value : Value}
    (hv : Meets T.logged value) (hc : T.Delivers) : Writes m₀ T s (recordRevised o runId run value s).2 := by
  refine writes_check fun event hmap => writes_recordEvent o ⟨event, meets_of_mapping hv hmap, ?_⟩ hc
  exact Resembles.set (fun _ _ => rfl) (by decide) _

theorem writes_recordAll (o : SetOrder) {runId : String} {run : Fields} {events : List Value}
    (hv : ∀ event ∈ events, Meets T.logged event) (hc : T.Delivers) :
    Writes m₀ T s (recordAll o runId run events s).2 := by
  induction events generalizing s with
  | nil => exact .refl
  | cons value rest ih =>
    refine writes_bind (writes_recordRevised o (hv value List.mem_cons_self) hc) fun _ _ _ => ?_
    exact writes_bind (ih fun event he => hv event (List.mem_cons_of_mem value he)) fun _ _ _ => .refl

/-! ### Runs -/

theorem get_of_currentRevision {runId : String} {expected : Option ℤ} {p : Fields × ℤ}
    (h : currentRevision runId expected s = .ok p) : s.runs.get runId = some p.1 := by
  unfold currentRevision at h
  cases hget : s.runs.get runId with
  | none =>
    rw [hget] at h
    cases h
  | some current =>
    simp only [hget] at h
    split at h
    · cases h
    · split at h
      · cases h
        rfl
      · split at h
        · cases h
          rfl
        · cases h

theorem mapping_of_runChanges {runId : String} {updates : Value} {changes : Fields}
    (h : runChanges runId updates = .ok changes) : mapping "run updates" updates = .ok changes := by
  unfold runChanges at h
  cases hmap : mapping "run updates" updates with
  | error fault =>
    rw [hmap] at h
    cases h
  | ok changes' =>
    simp only [hmap] at h
    split at h
    · cases h
      rfl
    · cases h

theorem writes_updateRun {runId : String} {updates : Value} {expected : Option ℤ} {bump : Bool}
    (hu : Meets (T.changed .runs) updates) : Writes m₀ T s (updateRun runId updates expected bump s).2 := by
  refine writes_reading (by rw [requireRevision_eq]) fun p hp => writes_check fun changes hchanges => ?_
  have hget := get_of_currentRevision (congrArg Prod.fst hp)
  exact .single (.updateRun (meets_of_mapping hu (mapping_of_runChanges hchanges)) hget _)

theorem writes_mutateRunWithEvent (o : SetOrder) {runId : String} {updates event : Value} {expected : Option ℤ}
    {bump : Bool} (hu : Meets (T.changed .runs) updates) (hv : Meets T.logged event) (hc : T.Delivers) :
    Writes m₀ T s (mutateRunWithEvent o runId updates event expected bump s).2 := by
  refine writes_reading (by rw [requireRevision_eq]) fun p hp => writes_check fun changes hchanges => ?_
  have hget := get_of_currentRevision (congrArg Prod.fst hp)
  refine writes_bind (.single (.updateRun (meets_of_mapping hu hchanges) hget _)) fun _ _ _ => ?_
  exact writes_bind (writes_recordRevised o hv hc) fun _ _ _ => .refl

theorem storedResult_runs {runId : String} {value : Value} {stored : Fields} {t : Memory}
    (h : storedResult runId value s = (.ok stored, t)) : Same s t := by
  have hsame := within_storedResult runId value s
  rwa [h] at hsame

theorem writes_storedResult {runId : String} {value : Value} :
    Writes m₀ T s (storedResult runId value s).2 := by
  refine writes_check fun _ _ => writes_check fun _ _ => writes_bind (writes_newIdLocked "res") fun _ _ _ => ?_
  exact writes_check fun _ _ => .refl

theorem writes_finalizeRunWithResult (o : SetOrder) {runId : String} {result updates : Value} {events : List Value}
    {expected : Option ℤ} (hu : Meets (T.changed .runs) updates) (hv : ∀ event ∈ events, Meets T.logged event)
    (hc : T.Delivers) :
    Writes m₀ T s (finalizeRunWithResult o runId result updates events expected s).2 := by
  refine writes_reading (by rw [requireRevision_eq]) fun p hp => ?_
  have hget := get_of_currentRevision (congrArg Prod.fst hp)
  refine writes_bind writes_storedResult fun stored t ht => ?_
  obtain ⟨counters, rfl⟩ := storedResult_runs ht
  refine writes_bind (.single (.result _ runId stored)) fun _ t ht => writes_check fun changes hchanges => ?_
  cases ht
  have hget : (putResult runId stored { s with idCounters := counters }).runs.get runId = some p.1 := hget
  refine writes_bind (.single (.updateRun (meets_of_mapping hu (mapping_of_runChanges hchanges)) hget _)) fun _ _ _ => ?_
  exact writes_bind (writes_recordAll o hv hc) fun _ _ _ => .refl

end

/-! ### Every operation -/

/-- An operation keeps to the terms. -/
def Op.Meets (T : Terms) : Op → Prop
  | .createDataset value => Store.Meets (T.created .datasets) value
  | .updateDataset _ updates => Store.Meets (T.changed .datasets) updates
  | .createDatasetVersion _ value => Store.Meets (T.created .datasetVersions) value
  | .createDatasetWithVersion dataset version =>
    Store.Meets (T.created .datasets) dataset ∧ Store.Meets (T.created .datasetVersions) version
  | .updateDatasetVersion _ updates => Store.Meets (T.changed .datasetVersions) updates
  | .createRun value =>
    Store.Meets (fun item => T.created .runs ((item.setDefault "run_revision" (.int 1)).setDefault "snapshot_seq" (.int 0))) value
  | .updateRun _ updates _ _ => Store.Meets (T.changed .runs) updates
  | .appendEvent _ value => Store.Meets T.logged value ∧ T.Delivers
  | .mutateRunWithEvent _ updates event _ _ =>
    Store.Meets (T.changed .runs) updates ∧ Store.Meets T.logged event ∧ T.Delivers
  | .finalizeRunWithResult _ _ updates events _ =>
    Store.Meets (T.changed .runs) updates ∧ (∀ event ∈ events, Store.Meets T.logged event) ∧ T.Delivers
  | .createOutput runId value => Store.Meets (T.created (.outputs runId)) value
  | .createDecisionPacket runId value =>
    Store.Meets (fun item => ∀ waitSetId, T.created (.decisionPackets runId) (item.setDefault "wait_set_id" (.str waitSetId))) value
  | .updateDecisionPacket runId _ updates => Store.Meets (T.changed (.decisionPackets runId)) updates
  | .createCommand value => Store.Meets (T.created .commands) value
  | .updateCommand _ updates => Store.Meets (T.changed .commands) updates
  | .createArtifact value => Store.Meets (T.created .artifacts) value
  | .updateArtifact _ updates => Store.Meets (T.changed .artifacts) updates
  | .createApproval runId value => Store.Meets (T.created (.approvals runId)) value
  | .updateApproval runId _ updates => Store.Meets (T.changed (.approvals runId)) updates
  | .createModel value => Store.Meets (T.created .models) value
  | .createWebhookEndpoint value => Store.Meets (T.created .webhookEndpoints) value
  | .updateWebhookEndpoint _ updates => Store.Meets (T.changed .webhookEndpoints) updates
  | .createWebhookDelivery endpointId value => Store.Meets (T.created (.webhookDeliveries endpointId)) value
  | .updateWebhookDelivery endpointId _ updates => Store.Meets (T.changed (.webhookDeliveries endpointId)) updates
  | .createDeletion value => Store.Meets (T.created .deletions) value
  | .updateDeletion _ updates => Store.Meets (T.changed .deletions) updates
  | .reset => False
  | _ => True

/-- An operation writes new items of what it is given and changes to items, one after the
other, unless it clears the store. -/
theorem Op.writes (o : SetOrder) {m : Memory} {T : Terms} {op : Op} (h : op.Meets T) :
    Writes m T m (op.method o m).2 := by
  have hvoid : ∀ {α : Type} {p : StoreM α}, Writes m T m (p m).2 → Writes m T m (Op.method.void p m).2 :=
    fun hp => writes_bind hp fun _ _ _ => .refl
  cases op with
  | newId kind =>
    refine hvoid ?_
    unfold Store.newId
    exact writes_ite (fun _ => .refl) fun _ => writes_newIdLocked _
  | createDataset value => exact hvoid (writes_createLocked .datasets rfl rfl h (by simp))
  | updateDataset datasetId updates => exact hvoid (writes_updateLocked .datasets h (by simp))
  | createDatasetVersion datasetId value =>
    refine hvoid ?_
    rw [Store.createDatasetVersion, get_bind]
    split
    · exact writes_createLocked .datasetVersions rfl rfl h (by simp)
    · exact .refl
  | createDatasetWithVersion dataset version => exact hvoid (writes_createDatasetWithVersion h.1 h.2)
  | updateDatasetVersion versionId updates =>
    refine hvoid ?_
    cases hversion : m.datasetVersions.get versionId with
    | none =>
      simp only [Store.updateDatasetVersion, get_bind, hversion]
      exact .refl
    | some current =>
      cases hid : current.get "dataset_id" with
      | none =>
        simp only [Store.updateDatasetVersion, get_bind, hversion, hid]
        exact .refl
      | some datasetId =>
        simp only [Store.updateDatasetVersion, get_bind, hversion, hid]
        refine writes_check fun supplied _ => writes_ite (fun _ => ?_) fun _ => .refl
        exact writes_updateLocked .datasetVersions h (by simp)
  | createRun value => exact hvoid (writes_createRun h)
  | updateRun runId updates expected bump => exact hvoid (writes_updateRun h)
  | appendEvent runId value => exact hvoid (writes_recordEvent o (meets_mono (fun fields hf => ⟨fields, hf, fun _ _ => rfl⟩) h.1) h.2)
  | mutateRunWithEvent runId updates event expected bump => exact hvoid (writes_mutateRunWithEvent o h.1 h.2.1 h.2.2)
  | finalizeRunWithResult runId result updates events expected =>
    exact hvoid (writes_finalizeRunWithResult o h.1 h.2.1 h.2.2)
  | createOutput runId value =>
    refine hvoid (writes_reading (reads_requireRun runId m) fun _ _ => ?_)
    refine writes_reading (reads_requireKey runId _ m) fun _ _ => ?_
    exact writes_createLocked (.outputs runId) rfl rfl h (by simp)
  | createDecisionPacket runId value =>
    refine hvoid (writes_reading (reads_requireRun runId m) fun _ _ => writes_check fun item hmap => ?_)
    refine writes_bind (writes_newIdLocked "ws") fun waitSetId t ht => ?_
    cases ht
    refine writes_reading (reads_requireKey runId _ _) fun _ _ => ?_
    refine writes_createLocked (.decisionPackets runId) rfl ?_ (meets_of_mapping h hmap _) (by simp)
    exact (counterOf_draw m "ws" "dp").trans (if_neg (by decide))
  | updateDecisionPacket runId packetId updates =>
    refine hvoid (writes_reading (reads_requireRun runId m) fun _ _ => ?_)
    refine writes_reading (reads_requireKey runId _ m) fun _ _ => ?_
    rw [get_bind]
    cases ((Collection.decisionPackets runId).get m).get packetId with
    | none => exact .refl
    | some current =>
      refine writes_check fun supplied _ => writes_ite (fun _ => .refl) fun _ => ?_
      refine writes_check fun suppliedWaitSet _ => writes_ite (fun _ => .refl) fun _ => ?_
      exact writes_updateLocked (.decisionPackets runId) h (by simp)
  | createCommand value => exact hvoid (writes_createForRun .commands rfl rfl h (by simp))
  | updateCommand commandId updates => exact hvoid (writes_updateLocked .commands h (by simp))
  | setResult runId value =>
    refine hvoid (writes_reading (reads_requireRun runId m) fun _ _ => ?_)
    exact writes_bind writes_storedResult fun stored t _ => .single (.result t runId stored)
  | createArtifact value => exact hvoid (writes_createForRun .artifacts rfl rfl h (by simp))
  | updateArtifact artifactId updates => exact hvoid (writes_updateLocked .artifacts h (by simp))
  | createApproval runId value =>
    refine hvoid (writes_reading (reads_requireRun runId m) fun _ _ => ?_)
    refine writes_bind (.single (.openApprovals m runId)) fun _ t ht => ?_
    cases ht
    exact writes_createLocked (.approvals runId) rfl rfl h (by simp)
  | updateApproval runId approvalId updates =>
    refine hvoid (writes_reading (reads_requireRun runId m) fun _ _ => writes_check fun supplied _ => ?_)
    refine writes_ite (fun _ => .refl) fun _ => writes_bind (.single (.openApprovals m runId)) fun _ t _ => ?_
    exact writes_updateLocked (.approvals runId) h (by simp)
  | createModel value => exact hvoid (writes_createForRun .models rfl rfl h (by simp))
  | createWebhookEndpoint value => exact hvoid (writes_createLocked .webhookEndpoints rfl rfl h (by simp))
  | updateWebhookEndpoint endpointId updates => exact hvoid (writes_updateLocked .webhookEndpoints h (by simp))
  | createWebhookDelivery endpointId value =>
    refine hvoid (writes_reading (reads_requireEndpoint endpointId m) fun _ _ => ?_)
    refine writes_bind (.single (.openDeliveries m endpointId)) fun _ t ht => ?_
    cases ht
    exact writes_createLocked (.webhookDeliveries endpointId) rfl rfl h (by simp)
  | updateWebhookDelivery endpointId deliveryId updates =>
    refine hvoid (writes_reading (reads_requireEndpoint endpointId m) fun _ _ => writes_check fun supplied _ => ?_)
    refine writes_ite (fun _ => .refl) fun _ => writes_bind (.single (.openDeliveries m endpointId)) fun _ t _ => ?_
    exact writes_updateLocked (.webhookDeliveries endpointId) h (by simp)
  | createDeletion value => exact hvoid (writes_createLocked .deletions rfl rfl h (by simp))
  | updateDeletion deletionId updates => exact hvoid (writes_updateLocked .deletions h (by simp))
  | beginIdempotentRequest operation key fingerprint =>
    refine hvoid (writes_check fun identity _ => ?_)
    rw [get_bind]
    cases m.idempotency.get identity with
    | none => exact .single (.idempotency m _)
    | some record => exact .refl
  | completeIdempotentRequest operation key fingerprint statusCode body headers =>
    refine hvoid (writes_check fun identity _ => ?_)
    rw [get_bind]
    refine writes_bind (.single (.idempotency m _)) fun _ t _ => writes_ite (fun _ => .refl) fun _ => ?_
    cases ((m.idempotency.get identity).getD ⟨fingerprint, none⟩).response with
    | some response => exact .refl
    | none => exact writes_check fun response _ => .single (.idempotency t _)
  | abortIdempotentRequest operation key fingerprint =>
    refine hvoid (writes_check fun identity _ => ?_)
    rw [get_bind]
    cases m.idempotency.get identity with
    | none => exact .refl
    | some record =>
      refine writes_ite (fun _ => .refl) fun _ => writes_ite (fun _ => .refl) fun _ => ?_
      exact .single (.idempotency m _)
  | reset => exact h.elim
  | job r op => exact .refl

end AutomlApi.Store
