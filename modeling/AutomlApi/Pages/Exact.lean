import AutomlApi.Pages.Listings
import AutomlApi.Store.Sections

/-! Following the cursors of a listing in the order of ids. The ids that were there at
the first page are read once each, in their order, whatever is created or updated between
the pages. The calls of the services are careful, as they draw an id and create its item
in one section, and no update names an owner. -/

namespace AutomlApi.Pages

open Paging (Follows sortBy after)
open Runs (Run)
open Store (Fields Value Fault Memory SetOrder SqliteStore Shelf Stocked Kept Careful Onward counterOf)

/-! ### Requests that follow a cursor -/

namespace Listing

variable {l : Listing} {tenantId : String} {keep : Value → Fields → Bool}

theorem answer_first (limit : Option ℤ) (items : List Fields) :
    l.answer tenantId ⟨none, limit, none⟩ keep items
      = .ok (l.page tenantId (l.firstMarks limit items) .null (keep .null) items) := rfl

theorem statuses_cursor (marks : Marks) : ((l.cursor tenantId marks .null).get "statuses").getD .null = .null := by
  cases hparent : l.parentId <;> cases hfilters : l.filters <;> simp [cursor, hparent, hfilters, Dict.get_cons]

theorem answer_next {marks : Marks} (hlimit : 1 ≤ marks.limit) (hmark : 0 ≤ marks.highWatermark) (items : List Fields) :
    l.answer tenantId ⟨some (l.cursor tenantId marks .null), none, none⟩ keep items
      = .ok (l.page tenantId marks .null (keep .null) items) := by
  simp only [answer, validate_cursor, readMarks_cursor hlimit hmark, statuses_cursor, Option.isSome_none]
  rfl

/-- The marks of a cursor after an id, for what was listed at the first page. -/
def marksAfter (l : Listing) (limit : Option ℤ) (items : List Fields) (k : String) : Marks :=
  { l.firstMarks limit items with position := k }

/-- The reader's `i`th request, after an id. -/
def Asks (l : Listing) (tenantId : String) (limit : Option ℤ) (items : List Fields) (i : ℕ) (asked : Asked)
    (k : String) : Prop :=
  i = 0 ∧ asked = ⟨none, limit, none⟩ ∧ k = "" ∨
    asked = ⟨some (l.cursor tenantId (l.marksAfter limit items k) .null), none, none⟩

theorem le_highId {limit : Option ℤ} {items : List Fields} (hsorted : (items.map l.idOf).Pairwise (· < ·)) {id : String}
    (hid : id ∈ items.map l.idOf) : id ≤ (l.firstMarks limit items).highId := by
  show id ≤ (items.getLast?.map l.idOf).getD ""
  obtain ⟨last, hlast⟩ := Option.ne_none_iff_exists'.mp (mt List.getLast?_eq_none_iff.mp (List.ne_nil_of_mem hid))
  obtain ⟨front, hfront⟩ := List.getLast?_eq_some_iff.mp hlast
  rw [← List.getLast?_map, hlast]
  rw [hfront] at hsorted hid
  rcases List.mem_append.mp hid with hid | hid
  · exact ((List.pairwise_append.mp hsorted).2.2 id hid last List.mem_cons_self).le
  · rw [List.mem_singleton.mp hid]
    rfl

theorem highId_mem (limit : Option ℤ) (items : List Fields) :
    (l.firstMarks limit items).highId ∈ items.map l.idOf ∨ (l.firstMarks limit items).highId = "" := by
  show (items.getLast?.map l.idOf).getD "" ∈ items.map l.idOf ∨ _
  cases hlast : items.getLast? with
  | none =>
    refine .inr ?_
    show (items.getLast?.map l.idOf).getD "" = ""
    rw [hlast]
    rfl
  | some last => exact .inl (List.mem_map_of_mem (List.mem_of_getLast? hlast))

/-- Lists of items that only grow, by greater ids, are read as the first of them. -/
theorem follows {σ : Type} {states : ℕ → σ} {page : Asked → σ → Except Refusal (List Fields × Option Asked)}
    {items : ℕ → List Fields} (hkeep : ∀ item, keep .null item = true)
    (hpage : ∀ i asked, asked.status = none →
      page asked (states i) = (l.answer tenantId asked keep (items i)).map Page.turn)
    (hsorted : ∀ i, ((items i).map l.idOf).Pairwise (· < ·))
    (hstays : ∀ i, ∀ id ∈ (items 0).map l.idOf, id ∈ (items i).map l.idOf)
    (hlater : ∀ i, ∀ id ∈ (items i).map l.idOf,
      id ∈ (items 0).map l.idOf ∨ ∀ id' ∈ (items 0).map l.idOf, id' < id)
    (hnamed : ∀ id ∈ (items 0).map l.idOf, "" < id) {limit : Option ℤ} (hlimit : ∀ n ∈ limit, 1 ≤ n) :
    ∃ read, Follows page ⟨none, limit, none⟩ states read ∧ read.map l.idOf = (items 0).map l.idOf := by
  have hn : 1 ≤ limit.getD 50 := by
    cases limit with
    | none => decide
    | some n => exact hlimit n rfl
  have hwindow : ∀ i k, ((items i).map l.idOf).filter (fun id => k < id ∧ id ≤ (l.firstMarks limit (items 0)).highId)
      = after id ((items 0).map l.idOf) k := fun i k => by
    refine Paging.eq_of_sorted ((hsorted i).filter _) ((hsorted 0).filter _) fun id => ?_
    simp only [after, List.mem_filter, decide_eq_true_eq, id_eq]
    refine ⟨fun ⟨hid, hk, hle⟩ => ⟨(hlater i id hid).resolve_right fun hnew => ?_, hk⟩, fun ⟨hid, hk⟩ =>
      ⟨hstays i id hid, hk, le_highId (hsorted 0) hid⟩⟩
    rcases highId_mem (l := l) limit (items 0) with hhigh | hhigh
    · exact absurd (hnew _ hhigh) (not_lt.mpr hle)
    · rw [hhigh] at hle
      exact absurd (String.lt_iff_toList_lt.mp (hk.trans_le hle)) (List.not_lt_nil _)
  -- a first page and one after it are cut in the same way
  have hcuts : ∀ i k, Paging.Cuts (l.Asks tenantId limit (items 0) (i + 1)) l.idOf id (limit.getD 50).toNat
      (after id ((items 0).map l.idOf) k)
      (l.page tenantId (l.marksAfter limit (items 0) k) .null (keep .null) (items i)).turn := fun i k => by
    rw [← hwindow i k]
    exact @page_cuts l tenantId (l.marksAfter limit (items 0) k) hn (items i) (keep .null) hkeep .null _
      fun k' => Or.inr rfl
  obtain ⟨read, hfollows, hread⟩ := @Paging.follows_window σ Asked Refusal Fields String String page states _ id
    ((items 0).map l.idOf) (hsorted 0) (limit.getD 50).toNat (by omega) l.idOf (l.Asks tenantId limit (items 0))
    (fun i asked k hasks => by
      rcases hasks with ⟨rfl, rfl, rfl⟩ | rfl
      · refine ⟨_, ?_, hcuts 0 ""⟩
        rw [hpage 0 _ rfl, answer_first]
        rfl
      · refine ⟨_, ?_, hcuts i k⟩
        rw [hpage i _ rfl, answer_next hn (Int.natCast_nonneg _)]
        rfl) ⟨none, limit, none⟩ "" (.inl ⟨rfl, rfl, rfl⟩)
  refine ⟨read, hfollows, hread.trans (Paging.after_eq_self hnamed)⟩

end Listing

/-! ### The tenant's items -/

section

variable {tenantId : String} {shelf : Shelf} {view : Fields → Fields} {l : Listing} {m : Memory}

/-- The ids that are shown are those that the tenant's items are under. -/
theorem ids_shown (hl : ∀ item, (view item).get l.idField = item.get shelf.idField) (h : Stocked shelf m) :
    (shownItems tenantId shelf view m).map l.idOf
      = ((shelf.items m).filter fun entry => owns tenantId entry.2).map Prod.fst := by
  unfold shownItems
  rw [List.filter_map, List.map_map, List.map_map]
  refine List.map_congr_left fun entry hentry => ?_
  have hget := Dict.get_of_mem h.nodup (List.mem_of_mem_filter hentry)
  obtain ⟨n, -, hid⟩ := h.drawn entry.1 (Dict.has_of_get hget)
  show l.idOf (view entry.2) = entry.1
  unfold Listing.idOf
  rw [hl, h.named entry.1 entry.2 hget, Option.bind_some, Value.nonEmptyString?, if_neg (hid ▸ Store.formatId_ne _ _)]
  rfl

theorem mem_ids_shown (hl : ∀ item, (view item).get l.idField = item.get shelf.idField) (h : Stocked shelf m)
    {id : String} : id ∈ (shownItems tenantId shelf view m).map l.idOf ↔
      ∃ item, (shelf.items m).get id = some item ∧ owns tenantId item := by
  rw [ids_shown hl h, List.mem_map]
  refine ⟨fun ⟨⟨id', item⟩, hentry, heq⟩ => ?_, fun ⟨item, hget, howner⟩ => ⟨(id, item), ?_, rfl⟩⟩
  · cases heq
    obtain ⟨hmem, howner⟩ := List.mem_filter.mp hentry
    exact ⟨item, Dict.get_of_mem h.nodup hmem, howner⟩
  · exact List.mem_filter.mpr ⟨Dict.mem_of_get hget, howner⟩

theorem nodup_ids_shown (hl : ∀ item, (view item).get l.idField = item.get shelf.idField) (h : Stocked shelf m) :
    ((shownItems tenantId shelf view m).map l.idOf).Nodup := by
  rw [ids_shown hl h]
  exact (List.filter_sublist.map _).nodup h.nodup

end

/-! ### The four listings -/

inductive IdListing where
  | runs
  | approvals (runId : String)
  | webhookEndpoints
  | webhookDeliveries (endpointId : String)

namespace IdListing

def shelf : IdListing → Shelf
  | runs => .runs
  | approvals runId => .approvals runId
  | webhookEndpoints => .webhookEndpoints
  | webhookDeliveries endpointId => .webhookDeliveries endpointId

def listing : IdListing → Listing
  | runs => runsListing
  | approvals runId => approvalsListing runId
  | webhookEndpoints => webhookEndpointsListing
  | webhookDeliveries endpointId => webhookDeliveriesListing endpointId

def view : IdListing → Fields → Fields
  | runs => publicRun
  | webhookEndpoints => publicWebhookEndpoint
  | _ => publicItem

def keep : IdListing → Value → Fields → Bool
  | runs, statuses, item => statuses.equal .null || inStatuses statuses item
  | webhookDeliveries _, statuses, item => Store.falsy statuses || inStatuses statuses item
  | _, _, _ => true

/-- The answer to a reader of the tenant. -/
def list (tenantId : String) : IdListing → Asked → Memory → Except Refusal Page
  | runs => listRuns tenantId
  | approvals runId => listApprovals tenantId runId
  | webhookEndpoints => listWebhookEndpoints tenantId
  | webhookDeliveries endpointId => listWebhookDeliveries tenantId endpointId

def ask (tenantId : String) (which : IdListing) (asked : Asked) (m : Memory) : Except Refusal (List Fields × Option Asked) :=
  (which.list tenantId asked m).map Page.turn

/-- What the items belong to is the tenant's. -/
def Visible (tenantId : String) : IdListing → Memory → Prop
  | runs, _ => True
  | approvals runId, m => ∃ run, m.runs.get runId = some run ∧ owns tenantId run
  | webhookEndpoints, _ => True
  | webhookDeliveries endpointId, m => ∃ endpoint, m.webhookEndpoints.get endpointId = some endpoint ∧
    owns tenantId endpoint

def shown (tenantId : String) (which : IdListing) (m : Memory) : List Fields :=
  sortBy which.listing.idOf (shownItems tenantId which.shelf which.view m)

variable {tenantId : String} {which : IdListing} {m : Memory}

theorem keep_null (item : Fields) : which.keep .null item = true := by
  cases which <;> rfl

theorem get_view (which : IdListing) (item : Fields) :
    (which.view item).get which.listing.idField = item.get which.shelf.idField := by
  cases which with
  | runs =>
    show (publicRun item).get "run_id" = item.get "run_id"
    unfold publicRun
    split <;> simp [Dict.get_set, Dict.get_only, runPublicFields]
  | approvals => simp [view, listing, shelf, approvalsListing, Shelf.idField, publicItem, Dict.get_only]
  | webhookEndpoints =>
    simp [view, listing, shelf, webhookEndpointsListing, Shelf.idField, publicWebhookEndpoint, Dict.get_only]
  | webhookDeliveries => simp [view, listing, shelf, webhookDeliveriesListing, Shelf.idField, publicItem, Dict.get_only]

/-- Without a status filter, each listing answers from the tenant's items in their order. -/
theorem list_eq (hvisible : which.Visible tenantId m) {asked : Asked} (hasked : asked.status = none) :
    which.list tenantId asked m = which.listing.answer tenantId asked which.keep (which.shown tenantId m) := by
  cases which with
  | runs =>
    simp only [list, listRuns, hasked, validateFilter]
    rfl
  | approvals runId =>
    obtain ⟨run, hget, howner⟩ := hvisible
    simp only [list, listApprovals, hget, owned, howner, if_true]
    rfl
  | webhookEndpoints => rfl
  | webhookDeliveries endpointId =>
    obtain ⟨endpoint, hget, howner⟩ := hvisible
    simp only [list, listWebhookDeliveries, hget, owned, howner, hasked, validateFilter, if_true, Option.isNone_none,
      Bool.true_or, List.filter_true]
    rfl

theorem mem_ids (h : Stocked which.shelf m) {id : String} : id ∈ (which.shown tenantId m).map which.listing.idOf ↔
    ∃ item, (which.shelf.items m).get id = some item ∧ owns tenantId item := by
  rw [← mem_ids_shown (get_view which) h]
  simp only [shown, List.mem_map, Paging.mem_sortBy]

theorem sorted_ids (h : Stocked which.shelf m) :
    ((which.shown tenantId m).map which.listing.idOf).Pairwise (· < ·) :=
  List.pairwise_map.mpr (Paging.sorted_sortBy (nodup_ids_shown (get_view which) h))

/-! ### Between the pages -/

theorem Visible.kept {s t : Memory} (h : which.Visible tenantId s) (hruns : Kept .runs s t)
    (hendpoints : Kept .webhookEndpoints s t) : which.Visible tenantId t := by
  cases which with
  | approvals runId =>
    obtain ⟨run, hget, howner⟩ := h
    obtain ⟨run', hget', heq⟩ := hruns.stays runId run hget
    exact ⟨run', hget', (owns_of_get_eq heq).trans howner⟩
  | webhookDeliveries endpointId =>
    obtain ⟨endpoint, hget, howner⟩ := h
    obtain ⟨endpoint', hget', heq⟩ := hendpoints.stays endpointId endpoint hget
    exact ⟨endpoint', hget', (owns_of_get_eq heq).trans howner⟩
  | _ => trivial

theorem Visible.anchored (h : which.Visible tenantId m) : which.shelf.anchored m := by
  cases which with
  | approvals runId =>
    obtain ⟨run, hget, -⟩ := h
    exact Dict.has_of_get hget
  | _ => rfl

theorem shelf_ne (which : IdListing) : which.shelf ≠ .datasets := by
  cases which <;> simp [shelf]

theorem formatId_pos (kind : String) (n : ℕ) : "" < Store.formatId kind n := by
  have hne : (Store.formatId kind n).toList ≠ [] := fun h => Store.formatId_ne kind n (String.toList_eq_nil_iff.mp h)
  rw [String.lt_iff_toList_lt]
  cases h : (Store.formatId kind n).toList with
  | nil => exact absurd h hne
  | cons c rest => exact List.nil_lt_cons ..

/-- What the pages see of a shelf that is kept: the ids that were there, and greater ones. -/
theorem ids_kept {s t : Memory} (hs : Stocked which.shelf s) (ht : Stocked which.shelf t) (hkept : Kept which.shelf s t)
    (hbound : counterOf t which.shelf.kind < 10 ^ 12) :
    (∀ id ∈ (which.shown tenantId s).map which.listing.idOf, id ∈ (which.shown tenantId t).map which.listing.idOf) ∧
    ∀ id ∈ (which.shown tenantId t).map which.listing.idOf, id ∈ (which.shown tenantId s).map which.listing.idOf ∨
      ∀ id' ∈ (which.shown tenantId s).map which.listing.idOf, id' < id := by
  refine ⟨fun id hid => ?_, fun id hid => ?_⟩
  · obtain ⟨item, hget, howner⟩ := (mem_ids hs).mp hid
    obtain ⟨item', hget', heq⟩ := hkept.stays id item hget
    exact (mem_ids ht).mpr ⟨item', hget', (owns_of_get_eq heq).trans howner⟩
  · obtain ⟨item', hget', howner⟩ := (mem_ids ht).mp hid
    rcases hkept.later id (Dict.has_of_get hget') with hold | ⟨n, hn, rfl, hnew⟩
    · obtain ⟨item, hget⟩ := Option.isSome_iff_exists.mp hold
      obtain ⟨item'', hget'', heq⟩ := hkept.stays id item hget
      rw [hget'] at hget''
      cases hget''
      exact .inl ((mem_ids hs).mpr ⟨item, hget, (owns_of_get_eq heq).symm.trans howner⟩)
    · refine .inr fun id' hid' => ?_
      obtain ⟨item, hget, -⟩ := (mem_ids hs).mp hid'
      obtain ⟨k, hk, rfl⟩ := hnew id' (Dict.has_of_get hget)
      exact Store.formatId_lt _ hk (hn.trans_lt hbound)

/-- In every history, whatever is created or updated between the pages, the pages of each
listing are finitely many, and have the tenant's items that were there at the first of
them, each once and in the order of their ids. -/
theorem pages_exact {o : SetOrder} {tenantId : String} {which : IdListing} {states : ℕ → SqliteStore}
    {es : List Store.Event} (hreached : Run (fun s e => some (SqliteStore.step o s e)) Careful .init es (states 0))
    (honward : ∀ i, ∃ es, Run (fun s e => some (SqliteStore.step o s e)) Onward (states i) es (states (i + 1)))
    (hbound : ∀ i, counterOf (states i).memory which.shelf.kind < 10 ^ 12) {limit : Option ℤ} (hlimit : ∀ n ∈ limit, 1 ≤ n)
    (hvisible : which.Visible tenantId (states 0).memory) :
    ∃ items, Follows (which.ask tenantId) ⟨none, limit, none⟩ (fun i => (states i).memory) items ∧
      (items.map which.listing.idOf).Pairwise (· < ·) ∧
      ∀ id, id ∈ items.map which.listing.idOf ↔
        ∃ item, (which.shelf.items (states 0).memory).get id = some item ∧ owns tenantId item := by
  obtain ⟨hinv, hstocked⟩ := Store.stocked_run hreached
  -- every shelf is kept from the first page to each of the others
  have hkeeps : ∀ i, (states i).Inv ∧ ∀ shelf ≠ .datasets, Store.Keeps shelf (states 0).memory (states i).memory :=
    fun i => by
      induction i with
      | zero => exact ⟨hinv, fun shelf _ => Store.keeps_refl shelf _⟩
      | succ i ih =>
        obtain ⟨es, hrun⟩ := honward i
        exact ⟨(Store.keeps_run_on which.shelf_ne ih.1 hrun).1, fun shelf hshelf =>
          Store.keeps_trans shelf _ _ _ (ih.2 shelf hshelf) (Store.keeps_run_on hshelf ih.1 hrun).2⟩
  have hfirst : ∀ shelf ≠ .datasets, Stocked shelf (states 0).memory := fun shelf hshelf =>
    (hstocked shelf hshelf).memory
  have hkept : ∀ i shelf, shelf ≠ .datasets → shelf.anchored (states 0).memory → Kept shelf (states 0).memory (states i).memory :=
    fun i shelf hshelf hanchored => (((hkeeps i).2 shelf hshelf (hfirst shelf hshelf)).2 hanchored).2
  have hthere : ∀ i, Stocked which.shelf (states i).memory := fun i =>
    ((hkeeps i).2 _ which.shelf_ne (hfirst _ which.shelf_ne)).1
  have hids := fun i => @ids_kept tenantId which _ _ (hthere 0) (hthere i)
    (hkept i _ which.shelf_ne hvisible.anchored) (hbound i)
  obtain ⟨items, hfollows, hread⟩ := @Listing.follows which.listing tenantId which.keep Memory
    (fun i => (states i).memory) (which.ask tenantId) (fun i => which.shown tenantId (states i).memory) keep_null
    (fun i asked hasked => by
      rw [ask, list_eq (hvisible.kept (hkept i .runs (by simp) rfl)
        (hkept i .webhookEndpoints (by simp) rfl)) hasked])
    (fun i => sorted_ids (hthere i)) (fun i => (hids i).1) (fun i => (hids i).2)
    (fun id hid => by
      obtain ⟨item, hget, -⟩ := (mem_ids (hthere 0)).mp hid
      obtain ⟨n, -, rfl⟩ := (hthere 0).drawn id (Dict.has_of_get hget)
      exact formatId_pos _ n) limit hlimit
  refine ⟨items, hfollows, hread ▸ sorted_ids (hthere 0), fun id => ?_⟩
  rw [hread]
  exact mem_ids (hthere 0)

end IdListing

namespace Growing

/-- A service draws the id of a run, and creates the run. -/
def create : Store.Section :=
  .drawn true true "run" fun id => .createRun (.dict [("run_id", .str id), ("tenant_id", .str "tenant")])

def two : SqliteStore := (SqliteStore.init.enter Store.inOrder create).enter Store.inOrder create

/-- A third run is created after the first page. -/
def states : ℕ → SqliteStore
  | 0 => two
  | _ + 1 => two.enter Store.inOrder create

theorem served : create.Served := fun id _ => ⟨"run", id, rfl, by decide +kernel, rfl⟩

theorem reached : ∃ es, Run (fun s e => some (SqliteStore.step Store.inOrder s e)) Careful .init es two :=
  Store.careful_of_served (.cons served rfl (.cons served rfl (.nil _)))

theorem onward (i : ℕ) : ∃ es, Run (fun s e => some (SqliteStore.step Store.inOrder s e)) Onward (states i) es
    (states (i + 1)) := by
  cases i with
  | zero =>
    have hgo : create ≠ .alone .reopen := by simp [create]
    exact Store.onward_of_served (.cons ⟨served, hgo⟩ rfl (.nil _))
  | succ i => exact ⟨[], .nil _⟩

theorem counter_lt (i : ℕ) : counterOf (states i).memory "run" < 10 ^ 12 := by
  cases i with
  | zero => decide +kernel
  | succ i =>
    show counterOf (two.enter Store.inOrder create).memory "run" < 10 ^ 12
    decide +kernel

end Growing

/-- The third of three runs is not on the pages of the first two. -/
theorem growing_pages_exact :
    ∃ items, Follows (IdListing.runs.ask "tenant") ⟨none, some 1, none⟩ (fun i => (Growing.states i).memory) items ∧
      (items.map runsListing.idOf).Pairwise (· < ·) ∧
      ∀ id, id ∈ items.map runsListing.idOf ↔
        ∃ item, (Growing.states 0).memory.runs.get id = some item ∧ owns "tenant" item := by
  obtain ⟨_, hreached⟩ := Growing.reached
  exact @IdListing.pages_exact Store.inOrder "tenant" .runs Growing.states _ hreached Growing.onward Growing.counter_lt
    (some 1) (by decide) trivial

end AutomlApi.Pages
