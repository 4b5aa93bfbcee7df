import AutomlApi.Requests.Retries
import AutomlApi.Store.Shelves

/-! The bytes that a tenant is charged for, and those that it has stored. The charge counts
the deleted dataset versions and artifacts too. -/

namespace AutomlApi.Quotas

open Requests (ofTenant sizeBytes tenantStorageBytes)
open Runs (Run)
open Store (Fields Value Memory SetOrder SqliteStore Shelf Terms AllOn)

/-! ### What is stored -/

def deletedIn (field : String) (item : Fields) : Bool := ((item.get field).getD .null).equal (.str "DELETED")

/-- The declared sizes of the items of the tenant that are not deleted. -/
def livingSizes (tenantId field : String) (items : Dict String Fields) : List ℤ :=
  ((items.map Prod.snd).filter fun item => ofTenant tenantId item && !deletedIn field item).map sizeBytes

/-- The bytes of the tenant's dataset versions and artifacts. -/
def liveBytes (tenantId : String) (m : Memory) : ℤ :=
  (livingSizes tenantId "status" m.datasetVersions).sum + (livingSizes tenantId "state" m.artifacts).sum

/-- No deleted item of the tenant has bytes. -/
def Weightless (tenantId field : String) (items : Dict String Fields) : Prop :=
  ∀ entry ∈ items, ofTenant tenantId entry.2 → deletedIn field entry.2 → sizeBytes entry.2 = 0

/-! ### Charges of deleted items -/

/-- The sizes are those of a request, and no change names one. -/
def sized : Terms where
  created shelf given := shelf = .datasetVersions ∨ shelf = .artifacts → ∃ n : ℕ, given.get "size_bytes" = some (.int n)
  changed shelf changes := shelf = .datasetVersions ∨ shelf = .artifacts → changes.get "size_bytes" = none
  logged _ := True

/-- The field says something else than that the item is deleted. -/
def Living (field : String) (item : Fields) : Prop := ∃ value ≠ "DELETED", item.get field = some (.str value)

/-- Whatever the changes say in the field, they do not delete. -/
def Spares (field : String) (changes : Fields) : Prop :=
  ∀ entry ∈ changes, entry.1 = field → ∃ value ≠ "DELETED", entry.2 = .str value

/-- The same, and nothing is deleted. -/
def keeping : Terms where
  created shelf given := sized.created shelf given ∧ (shelf = .datasetVersions → Living "status" given) ∧
    (shelf = .artifacts → Living "state" given)
  changed shelf changes := sized.changed shelf changes ∧
    (shelf = .datasetVersions → Spares "status" changes) ∧ (shelf = .artifacts → Spares "state" changes)
  logged _ := True

def Sized (item : Fields) : Prop := ∃ n : ℕ, item.get "size_bytes" = some (.int n)

theorem Sized.sizeBytes_nonneg {item : Fields} (h : Sized item) : 0 ≤ sizeBytes item := by
  obtain ⟨n, hn⟩ := h
  rw [sizeBytes, hn]
  exact Int.natCast_nonneg n

/-- What is charged for the items of one kind is what the living weigh, and what the deleted do. -/
theorem charged_eq_iff {tenantId field : String} {items : Dict String Fields} (h : ∀ entry ∈ items, Sized entry.2) :
    (livingSizes tenantId field items).sum ≤ (((items.map Prod.snd).filter (ofTenant tenantId)).map sizeBytes).sum ∧
      ((((items.map Prod.snd).filter (ofTenant tenantId)).map sizeBytes).sum = (livingSizes tenantId field items).sum ↔
        Weightless tenantId field items) := by
  induction items with
  | nil => exact ⟨le_rfl, fun _ => by nofun, fun _ => rfl⟩
  | cons entry items ih =>
    obtain ⟨hle, hiff⟩ := ih fun e he => h e (List.mem_cons_of_mem _ he)
    have hpos := (h entry List.mem_cons_self).sizeBytes_nonneg
    have hcons : Weightless tenantId field (entry :: items) ↔
        (ofTenant tenantId entry.2 → deletedIn field entry.2 → sizeBytes entry.2 = 0) ∧ Weightless tenantId field items :=
      List.forall_mem_cons
    rw [hcons, ← hiff]
    unfold livingSizes at hle ⊢
    rw [List.map_cons]
    by_cases howner : ofTenant tenantId entry.2
    · cases hdeleted : deletedIn field entry.2 with
      | true =>
        rw [List.filter_cons_of_pos howner, List.filter_cons_of_neg (by simp [hdeleted]), List.map_cons, List.sum_cons]
        refine ⟨by omega, fun heq => ?_, fun ⟨hzero, heq⟩ => ?_⟩
        · have hzero : sizeBytes entry.2 = 0 := by omega
          exact ⟨fun _ _ => hzero, by omega⟩
        · have hzero := hzero howner rfl
          omega
      | false =>
        rw [List.filter_cons_of_pos howner, List.filter_cons_of_pos (by simp [howner, hdeleted]), List.map_cons,
          List.map_cons, List.sum_cons, List.sum_cons]
        refine ⟨by omega, fun heq => ⟨nofun, by omega⟩, fun ⟨_, heq⟩ => by omega⟩
    · rw [List.filter_cons_of_neg howner, List.filter_cons_of_neg (by simp [howner])]
      exact ⟨hle, fun heq => ⟨fun h => absurd h howner, heq⟩, fun h => h.2⟩

/-- What an item keeps from its creation on. -/
theorem get_new {m s : Memory} {shelf : Shelf} (hshelf : shelf = .datasetVersions ∨ shelf = .artifacts) {k : String}
    (hk : k ∉ ["dataset_version_id", "artifact_id", "dataset_id", "run_id"]) {given item : Fields} {id : String}
    (hnew : Store.New m s shelf given item id) : item.get k = given.get k := by
  simp only [List.mem_cons, not_or] at hk
  obtain ⟨hversion, hartifact, hdataset, hrun, -⟩ := hk
  rcases hshelf with rfl | rfl
  · exact hnew.rest k hversion (by simpa [Shelf.parents] using hdataset)
  · exact hnew.rest k hartifact (by simp [Shelf.parents])

theorem get_changed {shelf : Shelf} {current changes : Fields} {k : String} (h : changes.get k = none) :
    (current.update (changes.erase shelf.idField)).get k = current.get k := by
  refine Dict.get_update_of_get_eq_none ?_ _
  rw [Dict.get_erase, h, ite_self]

theorem lasting_sized {T : Memory → Terms} {shelf : Shelf} (hshelf : shelf = .datasetVersions ∨ shelf = .artifacts)
    (hcreated : ∀ {m given}, (T m).created shelf given → sized.created shelf given)
    (hchanged : ∀ {m changes}, (T m).changed shelf changes → sized.changed shelf changes) :
    Store.Lasting T shelf Sized where
  created hc hnew := by
    obtain ⟨n, hn⟩ := hcreated hc hshelf
    exact ⟨n, (get_new hshelf (by decide) hnew).trans hn⟩
  changed hu hcurrent := by
    obtain ⟨n, hn⟩ := hcurrent
    exact ⟨n, (get_changed (hchanged hu hshelf)).trans hn⟩
  encoded hitem hencoded := by
    obtain ⟨n, hn⟩ := hitem
    refine ⟨n, ?_⟩
    rw [← Store.get_encodeFields hencoded, hn]
    rfl

/-- What is charged is what is stored, where no deleted item has bytes. -/
theorem charged_iff {m : Memory} (hversions : ∀ entry ∈ m.datasetVersions, Sized entry.2)
    (hartifacts : ∀ entry ∈ m.artifacts, Sized entry.2) (tenantId : String) :
    tenantStorageBytes tenantId m = liveBytes tenantId m ↔
      Weightless tenantId "status" m.datasetVersions ∧ Weightless tenantId "state" m.artifacts := by
  obtain ⟨hle, hiff⟩ := @charged_eq_iff tenantId "status" _ hversions
  obtain ⟨hle', hiff'⟩ := @charged_eq_iff tenantId "state" _ hartifacts
  rw [← hiff, ← hiff', tenantStorageBytes, liveBytes]
  dsimp only
  omega

theorem lasting_living {T : Memory → Terms} {shelf : Shelf} {field : String}
    (hshelf : shelf = .datasetVersions ∨ shelf = .artifacts) (hfield : field = "status" ∨ field = "state")
    (hcreated : ∀ {m given}, (T m).created shelf given → Living field given)
    (hchanged : ∀ {m changes}, (T m).changed shelf changes → Spares field changes) :
    Store.Lasting T shelf (Living field) where
  created hc hnew := by
    obtain ⟨value, hne, hvalue⟩ := hcreated hc
    exact ⟨value, hne, (get_new hshelf (by rcases hfield with rfl | rfl <;> decide) hnew).trans hvalue⟩
  changed {_ current changes} hu hcurrent := by
    rcases Dict.get_update_cases (changes.erase shelf.idField) current field with ⟨v, hv, heq⟩ | heq
    · obtain ⟨value, hne, rfl⟩ := hchanged hu _ (List.mem_of_mem_filter hv) rfl
      exact ⟨value, hne, heq⟩
    · obtain ⟨value, hne, hvalue⟩ := hcurrent
      exact ⟨value, hne, heq.trans hvalue⟩
  encoded hitem hencoded := by
    obtain ⟨value, hne, hvalue⟩ := hitem
    refine ⟨value, hne, ?_⟩
    rw [← Store.get_encodeFields hencoded, hvalue]
    rfl

theorem weightless_of_living {tenantId field : String} {items : Dict String Fields}
    (h : ∀ entry ∈ items, Living field entry.2) : Weightless tenantId field items := fun entry hentry _ hdeleted => by
  obtain ⟨value, hne, hvalue⟩ := h entry hentry
  rw [deletedIn, hvalue, Option.getD_some] at hdeleted
  exact absurd (by simpa [Value.equal] using hdeleted) hne

/-! ### Histories -/

theorem sized_run {o : SetOrder} {T : Terms} (shelf : Shelf) (hshelf : shelf = .datasetVersions ∨ shelf = .artifacts)
    (hcreated : ∀ {given}, T.created shelf given → sized.created shelf given)
    (hchanged : ∀ {changes}, T.changed shelf changes → sized.changed shelf changes) {es : List Store.Event}
    {s : SqliteStore} (h : Run (fun s e => some (SqliteStore.step o s e)) (Store.Under fun _ => T) .init es s) :
    AllOn shelf Sized s.memory :=
  (Store.allOn_run (by rcases hshelf with rfl | rfl <;> decide)
    (lasting_sized (T := fun _ => T) hshelf (fun hc => hcreated hc) fun hc => hchanged hc) h).2.memory

theorem living_run {o : SetOrder} (shelf : Shelf) {field : String} (hshelf : shelf = .datasetVersions ∨ shelf = .artifacts)
    (hfield : field = "status" ∨ field = "state") (hcreated : ∀ {given}, keeping.created shelf given → Living field given)
    (hchanged : ∀ {changes}, keeping.changed shelf changes → Spares field changes) {es : List Store.Event}
    {s : SqliteStore} (h : Run (fun s e => some (SqliteStore.step o s e)) (Store.Under fun _ => keeping) .init es s) :
    AllOn shelf (Living field) s.memory :=
  (Store.allOn_run (by rcases hshelf with rfl | rfl <;> decide)
    (lasting_living (T := fun _ => keeping) hshelf hfield (fun hc => hcreated hc) fun hc => hchanged hc) h).2.memory

/-- After every history the tenant is charged for what it stores exactly where none of its
deleted dataset versions and artifacts has bytes, and so after every history that deletes
nothing. -/
theorem storage_charged_iff {o : SetOrder} {es : List Store.Event} {s : SqliteStore} (tenantId : String) :
    (Run (fun s e => some (SqliteStore.step o s e)) (Store.Under fun _ => sized) .init es s →
      (tenantStorageBytes tenantId s.memory = liveBytes tenantId s.memory ↔
        Weightless tenantId "status" s.memory.datasetVersions ∧ Weightless tenantId "state" s.memory.artifacts)) ∧
    (Run (fun s e => some (SqliteStore.step o s e)) (Store.Under fun _ => keeping) .init es s →
      tenantStorageBytes tenantId s.memory = liveBytes tenantId s.memory) := by
  refine ⟨fun h => ?_, fun h => ?_⟩
  · have hversions := sized_run .datasetVersions (.inl rfl) id id h
    have hartifacts := sized_run .artifacts (.inr rfl) id id h
    exact charged_iff hversions hartifacts tenantId
  · have hversions := sized_run (T := keeping) .datasetVersions (.inl rfl) (·.1) (·.1) h
    have hartifacts := sized_run (T := keeping) .artifacts (.inr rfl) (·.1) (·.1) h
    have hkept := living_run .datasetVersions (.inl rfl) (.inl rfl) (·.2.1 rfl) (·.2.1 rfl) h
    have hkept' := living_run .artifacts (.inr rfl) (.inr rfl) (·.2.2 rfl) (·.2.2 rfl) h
    exact (charged_iff hversions hartifacts tenantId).mpr ⟨weightless_of_living hkept, weightless_of_living hkept'⟩

/-! ### A deleted dataset -/

namespace Deleted

def tenantId : String := "tenant"

def upload : Store.Event :=
  .call true (.createDatasetWithVersion (.dict [("tenant_id", .str tenantId)])
    (.dict [("tenant_id", .str tenantId), ("status", .str "READY"), ("size_bytes", .int 10)]))

def delete : Store.Event :=
  .call true (.updateDatasetVersion "dsv_000000000001" (.dict [("status", .str "DELETED")]))

def store : SqliteStore := [upload, delete].foldl (fun s e => s.step Store.inOrder e) .init

theorem under_upload (s : SqliteStore) : Store.Under (fun _ => sized) s upload :=
  .inr ⟨fun h => by simp at h, fun _ => ⟨10, rfl⟩⟩

theorem charged : tenantStorageBytes tenantId store.memory = 10 := by decide +kernel

theorem live : liveBytes tenantId store.memory = 0 := by decide +kernel

/-- The ten bytes of the deleted version are still charged. -/
theorem deleted_is_charged :
    ¬ ∀ (es : List Store.Event) (s : SqliteStore) (tenantId : String),
      Run (fun s e => some (SqliteStore.step Store.inOrder s e)) (Store.Under fun _ => sized) .init es s →
        tenantStorageBytes tenantId s.memory = liveBytes tenantId s.memory := fun h => by
  have hrun : Run (fun s e => some (SqliteStore.step Store.inOrder s e)) (Store.Under fun _ => sized) .init
      [upload, delete] store := .cons (under_upload _) rfl (.cons (.inr fun _ => rfl) rfl (.nil _))
  have heq := h _ _ tenantId hrun
  rw [charged, live] at heq
  cases heq

def uploaded : SqliteStore := [upload].foldl (fun s e => s.step Store.inOrder e) .init

/-- Before that the two agree, and then exactly if the deleted version has no bytes. -/
theorem uploaded_then_deleted :
    tenantStorageBytes tenantId uploaded.memory = liveBytes tenantId uploaded.memory ∧
      (tenantStorageBytes tenantId store.memory = liveBytes tenantId store.memory ↔
        Weightless tenantId "status" store.memory.datasetVersions ∧ Weightless tenantId "state" store.memory.artifacts) := by
  refine ⟨(@storage_charged_iff Store.inOrder [upload] _ tenantId).2 ?_,
    (@storage_charged_iff Store.inOrder [upload, delete] _ tenantId).1 ?_⟩
  · refine .cons (.inr ⟨⟨fun h => by simp at h, nofun, nofun⟩, fun _ => ⟨10, rfl⟩, fun _ => ?_, nofun⟩) rfl (.nil _)
    exact ⟨"READY", by decide, rfl⟩
  · exact .cons (under_upload _) rfl (.cons (.inr fun _ => rfl) rfl (.nil _))

end Deleted

end AutomlApi.Quotas
