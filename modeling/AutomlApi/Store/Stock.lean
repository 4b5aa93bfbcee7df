import AutomlApi.Library.Digits
import AutomlApi.Store.Log
import AutomlApi.Store.Writes

/-! The items on a shelf. Every item is under its own id, ids are given out in their order,
and no item ever leaves its shelf or its owner. -/

namespace AutomlApi.Store

open Runs

/-! ### The order of ids -/

theorem toList_formatId (kind : String) (n : ℕ) : (formatId kind n).toList = kind.toList ++ '_' :: Digits.padded 12 n := by
  have hrepr : (toString n).toList = Nat.toDigits 10 n := by
    rw [Nat.toString_eq_repr, Nat.toList_repr]
  have hlen : (toString n).length = (Nat.toDigits 10 n).length := by
    rw [← hrepr, String.length_toList]
  simp only [formatId, String.toList_append, String.toList_ofList, hrepr, hlen, List.append_assoc]
  rfl

/-- The ids of one kind are in the order of their numbers, up to 10¹² of them. -/
theorem formatId_lt (kind : String) {a b : ℕ} (hab : a < b) (hb : b < 10 ^ 12) : formatId kind a < formatId kind b := by
  rw [String.lt_iff_toList_lt, toList_formatId, toList_formatId]
  exact List.append_left_lt (List.cons_lt_cons_iff.mpr (.inr ⟨rfl, Digits.padded_lt (by decide) hab hb⟩))

/-! ### What a shelf has -/

/-- The operation creates items without an id or under the id of their kind that was drawn
last, and changes no item's owner. -/
def careful (m₀ : Memory) : Terms where
  created shelf given := ¬ shelf.anonymous given →
    given.get shelf.idField = some (.str (formatId shelf.kind (counterOf m₀ shelf.kind)))
  changed _ changes := changes.get "tenant_id" = none
  logged _ := True

/-- Each item is under its own id, and the ids are among those that have been drawn. -/
structure Stocked (shelf : Shelf) (m : Memory) : Prop where
  named : ∀ id item, (shelf.items m).get id = some item → item.get shelf.idField = some (.str id)
  drawn : ∀ id, (shelf.items m).has id → ∃ n ≤ counterOf m shelf.kind, id = formatId shelf.kind n
  nodup : ((shelf.items m).map Prod.fst).Nodup

/-- No item leaves its shelf or its owner, and the ids that are new come after all that
were there. -/
structure Kept (shelf : Shelf) (s t : Memory) : Prop where
  counter : counterOf s shelf.kind ≤ counterOf t shelf.kind
  stays : ∀ id item, (shelf.items s).get id = some item → ∃ item', (shelf.items t).get id = some item' ∧
    item'.get "tenant_id" = item.get "tenant_id"
  later : ∀ id, (shelf.items t).has id → (shelf.items s).has id ∨ ∃ n ≤ counterOf t shelf.kind,
    id = formatId shelf.kind n ∧ ∀ id', (shelf.items s).has id' → ∃ l < n, id' = formatId shelf.kind l

/-- The run that a shelf belongs to is there. -/
def Shelf.anchored (shelf : Shelf) (m : Memory) : Bool :=
  match shelf with
  | .outputs runId | .decisionPackets runId | .approvals runId => m.runs.has runId
  | _ => true

/-- What every write keeps of a shelf. -/
def Keeps (shelf : Shelf) : Memory → Memory → Prop :=
  Runs.Keeps (Stocked shelf) (fun m => shelf.anchored m) (Kept shelf)

theorem Kept.refl (shelf : Shelf) (s : Memory) : Kept shelf s s :=
  ⟨Nat.le_refl _, fun _ item h => ⟨item, h, rfl⟩, fun _ h => .inl h⟩

theorem Kept.has {shelf : Shelf} {s t : Memory} (h : Kept shelf s t) {id : String} (hid : (shelf.items s).has id) :
    (shelf.items t).has id := by
  obtain ⟨item, hitem⟩ := Option.isSome_iff_exists.mp hid
  obtain ⟨item', hitem', -⟩ := h.stays id item hitem
  exact Dict.has_of_get hitem'

theorem Kept.trans {shelf : Shelf} {s t u : Memory} (h : Kept shelf s t) (h' : Kept shelf t u) : Kept shelf s u where
  counter := h.counter.trans h'.counter
  stays id item hitem := by
    obtain ⟨item', hitem', howner⟩ := h.stays id item hitem
    obtain ⟨item'', hitem'', howner'⟩ := h'.stays id item' hitem'
    exact ⟨item'', hitem'', howner'.trans howner⟩
  later id hid := by
    rcases h'.later id hid with hid | ⟨n, hn, rfl, hall⟩
    · rcases h.later id hid with hid | ⟨n, hn, rfl, hall⟩
      · exact .inl hid
      · exact .inr ⟨n, hn.trans h'.counter, rfl, hall⟩
    · exact .inr ⟨n, hn, rfl, fun id' hid' => hall id' (h.has hid')⟩

theorem keeps_refl (shelf : Shelf) (s : Memory) : Keeps shelf s s := Runs.Keeps.refl (Kept.refl shelf) s

theorem keeps_trans (shelf : Shelf) (s t u : Memory) (h : Keeps shelf s t) (h' : Keeps shelf t u) : Keeps shelf s u :=
  Runs.Keeps.trans (P := Stocked shelf) (A := fun m => shelf.anchored m) (R := Kept shelf)
    (fun _ _ _ => Kept.trans) s t u h h'

/-- What leaves the shelf alone and takes no run away keeps it. -/
theorem keeps_of_eq {shelf : Shelf} {s t : Memory} (hitems : shelf.items t = shelf.items s)
    (hcounter : counterOf s shelf.kind ≤ counterOf t shelf.kind) (hruns : ∀ r, s.runs.has r → t.runs.has r) :
    Keeps shelf s t := fun h => by
  refine ⟨⟨fun id item => hitems ▸ h.named id item, fun id hid => ?_, hitems ▸ h.nodup⟩, fun ha => ⟨?_, hcounter,
    fun id item hitem => ⟨item, hitems ▸ hitem, rfl⟩, fun id hid => .inl (hitems ▸ hid)⟩⟩
  · obtain ⟨n, hn, hid⟩ := h.drawn id (hitems ▸ hid)
    exact ⟨n, hn.trans hcounter, hid⟩
  · revert ha
    cases shelf <;> first | exact fun _ => rfl | exact hruns _

/-- An item that changes neither its id nor its owner. -/
theorem keeps_set {shelf : Shelf} {s t : Memory} {id : String} {current item : Fields}
    (hget : (shelf.items s).get id = some current) (hid : item.get shelf.idField = current.get shelf.idField)
    (howner : item.get "tenant_id" = current.get "tenant_id") (hitems : shelf.items t = (shelf.items s).set id item)
    (hcounter : counterOf t shelf.kind = counterOf s shelf.kind) (hruns : ∀ r, s.runs.has r → t.runs.has r) :
    Keeps shelf s t := fun h => by
  have hhas : ∀ l, (shelf.items t).has l = (shelf.items s).has l := fun l => by
    rw [hitems, Dict.has_set]
    by_cases hl : l = id
    · rw [hl, Dict.has_of_get hget]
      simp
    · simp [hl]
  refine ⟨⟨fun l x hx => ?_, fun l hl => ?_, hitems ▸ Dict.nodup_set h.nodup id item⟩, fun ha => ⟨?_, hcounter.ge,
    fun l x hx => ?_, fun l hl => .inl (hhas l ▸ hl)⟩⟩
  · rw [hitems, Dict.get_set] at hx
    split at hx
    · rename_i hl
      cases hx
      rw [hl, hid, h.named id current hget]
    · exact h.named l x hx
  · rw [hhas] at hl
    rw [hcounter]
    exact h.drawn l hl
  · revert ha
    cases shelf <;> first | exact fun _ => rfl | exact hruns _
  · by_cases hl : l = id
    · subst hl
      rw [hget] at hx
      cases hx
      exact ⟨item, by rw [hitems, Dict.get_set_self], howner⟩
    · exact ⟨x, by rw [hitems, Dict.get_set, if_neg hl, hx], rfl⟩

/-- A new item, under the id that was drawn last. -/
theorem keeps_insert {m₀ : Memory} {shelf : Shelf} {s t : Memory} {given item : Fields} {id : String}
    (hc : (careful m₀).created shelf given) (hnew : New m₀ s shelf given item id)
    (hitems : shelf.items t = (shelf.items s).set id item)
    (hcounter : counterOf t shelf.kind = counterOf s shelf.kind) (hruns : ∀ r, s.runs.has r → t.runs.has r) :
    Keeps shelf s t := fun h => by
  have hid : id = formatId shelf.kind (counterOf s shelf.kind) := by
    by_cases hanon : shelf.anonymous given
    · exact hnew.drawn hanon
    · obtain ⟨hget, hcount⟩ := hnew.own hanon
      have hlast := hc hanon
      rw [hget] at hlast
      rw [hcount]
      exact Value.str.inj (Option.some.inj hlast)
  have hfree : (shelf.items s).has id = false := by rw [Dict.has, hnew.free]; rfl
  have hsmaller : ∀ id', (shelf.items s).has id' → ∃ l < counterOf s shelf.kind, id' = formatId shelf.kind l :=
    fun id' hid' => by
      obtain ⟨l, hl, rfl⟩ := h.drawn id' hid'
      refine ⟨l, Nat.lt_of_le_of_ne hl fun heq => ?_, rfl⟩
      rw [heq, ← hid, hfree] at hid'
      cases hid'
  refine ⟨⟨fun l x hx => ?_, fun l hl => ?_, hitems ▸ Dict.nodup_set h.nodup id item⟩, fun ha => ⟨?_, hcounter.ge,
    fun l x hx => ?_, fun l hl => ?_⟩⟩
  · rw [hitems, Dict.get_set] at hx
    split at hx
    · rename_i hl
      cases hx
      rw [hl, hnew.named]
    · exact h.named l x hx
  · rw [hitems, Dict.has_set, Bool.or_eq_true, decide_eq_true_eq] at hl
    rw [hcounter]
    rcases hl with rfl | hl
    · exact ⟨_, Nat.le_refl _, hid⟩
    · exact h.drawn l hl
  · revert ha
    cases shelf <;> first | exact fun _ => rfl | exact hruns _
  · have hl : l ≠ id := by
      rintro rfl
      rw [hnew.free] at hx
      cases hx
    exact ⟨x, by rw [hitems, Dict.get_set, if_neg hl, hx], rfl⟩
  · rw [hitems, Dict.has_set, Bool.or_eq_true, decide_eq_true_eq] at hl
    rcases hl with rfl | hl
    · exact .inr ⟨_, hcounter.ge, hid, hsmaller⟩
    · exact .inl hl

/-! ### Every write keeps every shelf -/

theorem runs_put {shelf : Shelf} (h : shelf ≠ .runs) (m : Memory) (d : Dict String Fields) :
    (shelf.put m d).runs = m.runs := by
  cases shelf <;> first | rfl | exact absurd rfl h

theorem counterOf_put (shelf : Shelf) (m : Memory) (d : Dict String Fields) (kind : String) :
    counterOf (shelf.put m d) kind = counterOf m kind := by
  cases shelf <;> rfl

/-- A write to the entry of one run. -/
theorem keeps_run {shelf : Shelf} {s t : Memory} {runId : String} {current run : Fields}
    (hget : s.runs.get runId = some current) (hid : run.get "run_id" = current.get "run_id")
    (howner : run.get "tenant_id" = current.get "tenant_id") (hruns : t.runs = s.runs.set runId run)
    (hitems : shelf ≠ .runs → shelf.items t = shelf.items s) (hcounter : ∀ kind, counterOf t kind = counterOf s kind) :
    Keeps shelf s t := by
  have hhas : ∀ r, s.runs.has r → t.runs.has r := fun r hr => by rw [hruns, Dict.has_set, hr, Bool.or_true]
  by_cases hshelf : shelf = .runs
  · subst hshelf
    exact keeps_set hget hid howner hruns (hcounter _) hhas
  · exact keeps_of_eq (hitems hshelf) (hcounter _).ge hhas

theorem get_patched {k : String} (hk : k ∉ ["run_id", "run_revision", "snapshot_seq"]) {changes : Fields}
    (h : changes.get k = none) (current : Fields) (revision : Option ℤ) :
    (patched current changes revision).get k = current.get k := by
  have hupdate : (current.update (((changes.erase "run_id").erase "run_revision").erase "snapshot_seq")).get k
      = current.get k := by
    refine Dict.get_update_of_get_eq_none ?_ _
    simp only [Dict.get_erase, h, ite_self]
  have hne : k ≠ "run_revision" := fun heq => hk (by simp [heq])
  unfold patched
  split
  · rw [Dict.get_set, if_neg hne, hupdate]
  · exact hupdate

theorem get_id_patched (current changes : Fields) (revision : Option ℤ) :
    (patched current changes revision).get "run_id" = current.get "run_id" := by
  have hupdate : (current.update (((changes.erase "run_id").erase "run_revision").erase "snapshot_seq")).get "run_id"
      = current.get "run_id" := by
    refine Dict.get_update_of_get_eq_none ?_ _
    simp [Dict.get_erase]
  unfold patched
  split
  · rw [Dict.get_set, if_neg (by decide), hupdate]
  · exact hupdate

theorem keeps_insertRun {m₀ : Memory} {shelf : Shelf} {m : Memory} {given item : Fields} {id : String}
    (hc : (careful m₀).created .runs given) (hnew : New m₀ m .runs given item id) :
    Keeps shelf m (openRun id (putRun id item m)) := by
  have hfree : m.runs.get id = none := hnew.free
  have hhas : ∀ r, m.runs.has r → (openRun id (putRun id item m)).runs.has r := fun r hr => by
    rw [openRun, putRun, Dict.has_set, hr, Bool.or_true]
  -- the dictionaries of a run come with it
  have hopened : ∀ (all : Dict String (Dict String Fields)) (r : String), r ≠ id →
      ((all.set id []).get r).getD [] = (all.get r).getD [] := fun all r hr => by rw [Dict.get_set, if_neg hr]
  have hempty : ∀ {shelf : Shelf}, shelf.items (openRun id (putRun id item m)) = [] → shelf.anchored m = false →
      Keeps shelf m (openRun id (putRun id item m)) := fun hitems hanchor _ => by
    refine ⟨⟨fun l x hx => ?_, fun l hl => ?_, hitems ▸ List.nodup_nil⟩, fun ha => ?_⟩
    · rw [hitems] at hx
      cases hx
    · rw [hitems] at hl
      cases hl
    · exact absurd (hanchor.symm.trans ha) Bool.false_ne_true
  have hmissing : m.runs.has id = false := by rw [Dict.has, hfree]; rfl
  have hnested : ∀ {shelf : Shelf} (r : String),
      (r = id → shelf.items (openRun id (putRun id item m)) = [] ∧ shelf.anchored m = false) →
      (r ≠ id → shelf.items (openRun id (putRun id item m)) = shelf.items m) →
      Keeps shelf m (openRun id (putRun id item m)) := fun r hsame hother => by
    by_cases hr : r = id
    · exact hempty (hsame hr).1 (hsame hr).2
    · exact keeps_of_eq (hother hr) (Nat.le_refl _) hhas
  cases shelf with
  | runs => exact keeps_insert hc hnew rfl rfl hhas
  | outputs r =>
    refine hnested r (fun hr => ⟨?_, hr ▸ hmissing⟩) fun hr => hopened m.outputs r hr
    subst hr
    show ((m.outputs.set r []).get r).getD [] = []
    rw [Dict.get_set_self]
    rfl
  | decisionPackets r =>
    refine hnested r (fun hr => ⟨?_, hr ▸ hmissing⟩) fun hr => hopened m.decisionPackets r hr
    subst hr
    show ((m.decisionPackets.set r []).get r).getD [] = []
    rw [Dict.get_set_self]
    rfl
  | approvals r =>
    refine hnested r (fun hr => ⟨?_, hr ▸ hmissing⟩) fun hr => hopened m.approvals r hr
    subst hr
    show ((m.approvals.set r []).get r).getD [] = []
    rw [Dict.get_set_self]
    rfl
  | _ => exact keeps_of_eq rfl (Nat.le_refl _) hhas

theorem items_openApprovals (shelf : Shelf) (runId : String) (m : Memory) :
    shelf.items (openApprovals runId m) = shelf.items m := by
  cases shelf with
  | approvals r =>
    show ((m.approvals.setDefault runId []).get r).getD [] = (m.approvals.get r).getD []
    exact Dict.getD_setDefault m.approvals runId r []
  | _ => rfl

theorem items_openDeliveries (shelf : Shelf) (endpointId : String) (m : Memory) :
    shelf.items (openDeliveries endpointId m) = shelf.items m := by
  cases shelf with
  | webhookDeliveries r => exact deliveriesOf_open m endpointId r
  | _ => rfl

/-- Every write keeps every shelf but that of the datasets, of which one may be taken back. -/
theorem keeps_write {m₀ : Memory} {shelf : Shelf} (hshelf : shelf ≠ .datasets) {s t : Memory}
    (h : Write m₀ (careful m₀) s t) : Keeps shelf s t := by
  cases h with
  | draw kind =>
    refine keeps_of_eq (by cases shelf <;> rfl) ?_ fun _ hr => hr
    rw [counterOf_draw]
    split
    · rename_i hkind
      rw [hkind]
      exact Nat.le_succ _
    · exact Nat.le_refl _
  | @insert shelf' given item id hc hnew hruns =>
    have hhas : ∀ r, s.runs.has r → (shelf'.put s ((shelf'.items s).set id item)).runs.has r := fun r hr => by
      rwa [runs_put hruns]
    by_cases heq : shelf = shelf'
    · subst heq
      exact keeps_insert hc hnew (by rw [Shelf.items_put, if_pos rfl]) (counterOf_put ..) hhas
    · exact keeps_of_eq (by rw [Shelf.items_put, if_neg heq]) (counterOf_put ..).ge hhas
  | insertRun hc hnew => exact keeps_insertRun hc hnew
  | @update shelf' id current changes hu hget hruns =>
    have hhas : ∀ r, s.runs.has r →
        (shelf'.put s ((shelf'.items s).set id (current.update (changes.erase shelf'.idField)))).runs.has r :=
      fun r hr => by rwa [runs_put hruns]
    by_cases heq : shelf = shelf'
    · subst heq
      refine keeps_set hget ?_ ?_ (by rw [Shelf.items_put, if_pos rfl]) (counterOf_put ..) hhas
      · exact Dict.get_update_of_get_eq_none (by rw [Dict.get_erase, if_pos rfl]) _
      · refine Dict.get_update_of_get_eq_none ?_ _
        rw [Dict.get_erase, show changes.get "tenant_id" = none from hu, ite_self]
    · exact keeps_of_eq (by rw [Shelf.items_put, if_neg heq]) (counterOf_put ..).ge hhas
  | @updateRun runId current changes hu hget revision =>
    exact keeps_run hget (get_id_patched ..) (get_patched (by decide) hu ..) rfl
      (fun hne => by cases shelf <;> first | rfl | exact absurd rfl hne) fun _ => rfl
  | @log runId given event hrun he hgiven =>
    obtain ⟨current, hget⟩ := Option.isSome_iff_exists.mp hrun
    let run := current.set "snapshot_seq" (.int (((s.events.get runId).getD []).length + 1))
    refine @keeps_run shelf s _ runId current run hget ?_ ?_ ?_
      (fun hne => by cases shelf <;> first | rfl | exact absurd rfl hne) fun _ => rfl
    · rw [Dict.get_set, if_neg (by decide)]
    · rw [Dict.get_set, if_neg (by decide)]
    · simp only [pushEvent, hget, Option.getD_some]
      rfl
  | openApprovals runId => exact keeps_of_eq (items_openApprovals ..) (Nat.le_refl _) fun _ hr => hr
  | openDeliveries endpointId => exact keeps_of_eq (items_openDeliveries ..) (Nat.le_refl _) fun _ hr => hr
  | forget datasetId =>
    exact keeps_of_eq (by cases shelf <;> first | rfl | exact absurd rfl hshelf) (Nat.le_refl _) fun _ hr => hr
  | result runId result => exact keeps_of_eq (by cases shelf <;> rfl) (Nat.le_refl _) fun _ hr => hr
  | idempotency d => exact keeps_of_eq (by cases shelf <;> rfl) (Nat.le_refl _) fun _ hr => hr

/-! ### Restarts -/

theorem written_getD {f : Fields → Option Fields} {d d' : Dict String (Dict String Fields)}
    (h : d.written (Dict.written f) = some d') (k : String) :
    ((d.get k).getD []).written f = some ((d'.get k).getD []) := by
  have hget := Dict.get_written h k
  cases hd : d.get k with
  | none =>
    rw [hd] at hget
    have hnone : d'.get k = none := by simpa using hget.symm
    rw [hnone]
    rfl
  | some items =>
    rw [hd] at hget
    obtain ⟨items', hitems', heq⟩ := Option.map_eq_some_iff.mp hget.symm
    rw [hitems']
    exact heq.symm

/-- A checkpoint has the items of every shelf. -/
theorem items_serialised {m snapshot : Memory} (h : serialise m = some snapshot) (shelf : Shelf) :
    (shelf.items m).written Value.encodeFields = some (shelf.items snapshot) := by
  unfold serialise at h
  obtain ⟨datasets, hdatasets, h⟩ := Option.bind_eq_some_iff.mp h
  obtain ⟨datasetVersions, hversions, h⟩ := Option.bind_eq_some_iff.mp h
  obtain ⟨runs, hruns, h⟩ := Option.bind_eq_some_iff.mp h
  obtain ⟨events, -, h⟩ := Option.bind_eq_some_iff.mp h
  obtain ⟨outputs, houtputs, h⟩ := Option.bind_eq_some_iff.mp h
  obtain ⟨packets, hpackets, h⟩ := Option.bind_eq_some_iff.mp h
  obtain ⟨commands, hcommands, h⟩ := Option.bind_eq_some_iff.mp h
  obtain ⟨results, -, h⟩ := Option.bind_eq_some_iff.mp h
  obtain ⟨artifacts, hartifacts, h⟩ := Option.bind_eq_some_iff.mp h
  obtain ⟨approvals, happrovals, h⟩ := Option.bind_eq_some_iff.mp h
  obtain ⟨models, hmodels, h⟩ := Option.bind_eq_some_iff.mp h
  obtain ⟨endpoints, hendpoints, h⟩ := Option.bind_eq_some_iff.mp h
  obtain ⟨deliveries, hdeliveries, h⟩ := Option.bind_eq_some_iff.mp h
  obtain ⟨deletions, hdeletions, h⟩ := Option.bind_eq_some_iff.mp h
  obtain ⟨idempotency, -, h⟩ := Option.bind_eq_some_iff.mp h
  cases h
  cases shelf with
  | datasets => exact hdatasets
  | datasetVersions => exact hversions
  | runs => exact hruns
  | commands => exact hcommands
  | artifacts => exact hartifacts
  | models => exact hmodels
  | webhookEndpoints => exact hendpoints
  | deletions => exact hdeletions
  | outputs r => exact written_getD houtputs r
  | decisionPackets r => exact written_getD hpackets r
  | approvals r => exact written_getD happrovals r
  | webhookDeliveries d => exact written_getD hdeliveries d

theorem items_restore (shelf : Shelf) (snapshot : Memory) : shelf.items (restore snapshot) = shelf.items snapshot := by
  have hopened : ∀ (runs : Dict String Fields) (all : Dict String (Dict String Fields)) (r : String),
      ((runs.foldl (fun all run => all.setDefault run.1 []) all).get r).getD [] = (all.get r).getD [] :=
    fun runs all r => by
      induction runs generalizing all with
      | nil => rfl
      | cons run runs ih => rw [List.foldl_cons, ih, Dict.getD_setDefault]
  cases shelf with
  | approvals r => exact hopened snapshot.runs snapshot.approvals r
  | _ => rfl

theorem counterOf_serialised {m snapshot : Memory} (h : serialise m = some snapshot) (kind : String) :
    counterOf snapshot kind = counterOf m kind := by
  unfold serialise at h
  iterate 15 obtain ⟨_, -, h⟩ := Option.bind_eq_some_iff.mp h
  cases h
  exact congrArg (·.getD 0) (Dict.get_sortKeys m.idCounters kind)

/-- What a checkpoint restores is as well stocked. -/
theorem stocked_restore {shelf : Shelf} {m snapshot : Memory} (hm : Stocked shelf m)
    (h : serialise m = some snapshot) : Stocked shelf (restore snapshot) := by
  have hitems := items_serialised h shelf
  have hget : ∀ id, ((shelf.items m).get id).map Value.encodeFields = ((shelf.items snapshot).get id).map some :=
    Dict.get_written hitems
  refine ⟨fun id item hitem => ?_, fun id hid => ?_, ?_⟩
  · rw [items_restore] at hitem
    have hencoded := hget id
    rw [hitem] at hencoded
    obtain ⟨old, hold, heq⟩ := Option.map_eq_some_iff.mp hencoded
    have hname := get_encodeFields heq shelf.idField
    rw [hm.named id old hold] at hname
    exact hname.symm
  · rw [items_restore, Dict.has_written hitems] at hid
    rw [show counterOf (restore snapshot) shelf.kind = counterOf m shelf.kind from counterOf_serialised h _]
    exact hm.drawn id hid
  · rw [items_restore]
    exact (Dict.keys_written hitems).nodup_iff.mpr hm.nodup

/-! ### Histories -/

/-- A step of a history whose calls are careful. -/
def Careful (s : SqliteStore) : Event → Prop
  | .call _ op => op = .reset ∨ op.Meets (careful s.memory)
  | _ => True

/-- The process goes on, with careful calls. -/
def Onward (s : SqliteStore) : Event → Prop
  | .call _ op => op.Meets (careful s.memory)
  | .reopen => False
  | _ => True

theorem keeps_step (o : SetOrder) {shelf : Shelf} (hshelf : shelf ≠ .datasets) {s : SqliteStore} (hs : s.memory.Inv)
    {e : Event} (he : Onward s e) : Keeps shelf s.memory (s.step o e).memory := by
  refine step_climbs (keeps_refl shelf) hs (fun h => ?_) (fun disk op h => ?_) (fun runId => ?_) fun endpointId => ?_
  · subst h
    exact he.elim
  · subst h
    refine ⟨fun hreset => ?_, (Op.writes o he).climb (keeps_refl shelf) (keeps_trans shelf) (keeps_write hshelf)⟩
    subst hreset
    exact he.elim
  · exact @keeps_write s.memory shelf hshelf _ _ (.openApprovals _ runId)
  · exact @keeps_write s.memory shelf hshelf _ _ (.openDeliveries _ endpointId)

/-- Every shelf but that of the datasets is well stocked, in memory and in what a restart
restores. -/
def SqliteStore.Stocked (s : SqliteStore) : Prop := ∀ shelf ≠ .datasets, s.Holds (Store.Stocked shelf)

theorem stocked_empty (shelf : Shelf) : Stocked shelf .empty := by
  have hitems : shelf.items .empty = [] := by cases shelf <;> rfl
  refine ⟨fun id item h => ?_, fun id h => ?_, by rw [hitems]; exact List.nodup_nil⟩
  · rw [hitems] at h
    cases h
  · rw [hitems] at h
    cases h

theorem stocked_init : SqliteStore.init.Stocked := fun shelf _ => by
  refine ⟨stocked_empty shelf, ?_⟩
  show Store.Stocked shelf (restore .empty)
  rw [restore_eq inv_empty]
  exact stocked_empty shelf

theorem stocked_step (o : SetOrder) {s : SqliteStore} (hinv : s.Inv) (hs : s.Stocked) {e : Event} (he : Careful s e) :
    (s.step o e).Stocked := fun shelf hshelf => by
  have hholds := hs shelf hshelf
  refine hholds.step hinv.memory (stocked_empty shelf) stocked_restore (fun disk op h hreset => ?_) (fun runId => ?_)
    fun endpointId => ?_
  · subst h
    have hmeets := he.resolve_left hreset
    exact ((Op.writes o hmeets).climb (keeps_refl shelf) (keeps_trans shelf) (keeps_write hshelf) hholds.memory).1
  · exact (@keeps_write s.memory shelf hshelf _ _ (.openApprovals _ runId) hholds.memory).1
  · exact (@keeps_write s.memory shelf hshelf _ _ (.openDeliveries _ endpointId) hholds.memory).1

/-- A history of careful calls, with restarts and failures of the disk, ends well stocked. -/
theorem stocked_run {o : SetOrder} {es : List Event} {s : SqliteStore}
    (h : Run (fun s e => some (SqliteStore.step o s e)) Careful .init es s) : s.Inv ∧ s.Stocked := by
  refine h.invariant (I := fun s => s.Inv ∧ s.Stocked) (fun s e u hs he hu => ?_) ⟨?_, stocked_init⟩
  · cases hu
    exact ⟨inv_step o hs.1 e, stocked_step o hs.1 hs.2 he⟩
  · exact inv_reachable (o := o) ⟨[], .nil _⟩

/-- As the process goes on, every shelf is kept. -/
theorem keeps_run_on {o : SetOrder} {shelf : Shelf} (hshelf : shelf ≠ .datasets) {es : List Event} {s t : SqliteStore}
    (hs : s.Inv) (h : Run (fun s e => some (SqliteStore.step o s e)) Onward s es t) :
    t.Inv ∧ Keeps shelf s.memory t.memory := by
  induction h with
  | nil s => exact ⟨hs, keeps_refl shelf _⟩
  | cons he hu _ ih =>
    cases hu
    obtain ⟨hinv, hkeeps⟩ := ih (inv_step o hs _)
    exact ⟨hinv, keeps_trans shelf _ _ _ (keeps_step o hshelf hs.memory he) hkeeps⟩

end AutomlApi.Store
