import AutomlApi.Store.Histories
import AutomlApi.Store.Stock

/-! What holds of every item on a shelf: it holds of what is created there, and no change
and no restart takes it away. -/

namespace AutomlApi.Store

open Runs

/-- Every item on the shelf is so. -/
def AllOn (shelf : Shelf) (P : Fields → Prop) (m : Memory) : Prop := ∀ entry ∈ shelf.items m, P entry.2

/-- What a shelf on its own has to keep. -/
structure Lasting (T : Memory → Terms) (shelf : Shelf) (P : Fields → Prop) : Prop where
  created : ∀ {m s : Memory} {given item : Fields} {id : String}, (T m).created shelf given →
    New m s shelf given item id → P item
  changed : ∀ {m : Memory} {current changes : Fields}, (T m).changed shelf changes → P current →
    P (current.update (changes.erase shelf.idField))
  encoded : ∀ {item item' : Fields}, P item → Value.encodeFields item = some item' → P item'

section

variable {T : Memory → Terms} {shelf : Shelf} {P : Fields → Prop}

theorem allOn_of_eq {s t : Memory} (h : shelf.items t = shelf.items s) (hs : AllOn shelf P s) : AllOn shelf P t :=
  fun entry hentry => hs entry (h ▸ hentry)

theorem allOn_set {s t : Memory} {id : String} {item : Fields} (h : shelf.items t = (shelf.items s).set id item)
    (hitem : P item) (hs : AllOn shelf P s) : AllOn shelf P t := fun entry hentry => by
  rw [h] at hentry
  rcases Dict.mem_set hentry with rfl | hentry
  · exact hitem
  · exact hs entry hentry

/-- The shelf of a new run is empty, and every other one is as it was. -/
theorem items_openRun (hshelf : shelf ≠ .runs) (id : String) (item : Fields) (m : Memory) :
    shelf.items (openRun id (putRun id item m)) = shelf.items m ∨ shelf.items (openRun id (putRun id item m)) = [] := by
  have hopened : ∀ (all : Dict String (Dict String Fields)) (r : String),
      ((all.set id []).get r).getD [] = (all.get r).getD [] ∨ ((all.set id []).get r).getD [] = [] := fun all r => by
    rw [Dict.get_set]
    split
    · exact .inr rfl
    · exact .inl rfl
  cases shelf with
  | runs => exact absurd rfl hshelf
  | outputs r => exact hopened m.outputs r
  | decisionPackets r => exact hopened m.decisionPackets r
  | approvals r => exact hopened m.approvals r
  | _ => exact .inl rfl

theorem allOn_write (hshelf : shelf ≠ .runs) (hP : Lasting T shelf P) {m s t : Memory} (h : Write m (T m) s t)
    (hs : AllOn shelf P s) : AllOn shelf P t := by
  cases h with
  | @insert shelf' given item id hc hnew hruns =>
    by_cases heq : shelf = shelf'
    · subst heq
      exact allOn_set (by rw [Shelf.items_put, if_pos rfl]) (hP.created hc hnew) hs
    · exact allOn_of_eq (by rw [Shelf.items_put, if_neg heq]) hs
  | @insertRun given item id hc hnew =>
    rcases items_openRun hshelf id item s with h | h
    · exact allOn_of_eq h hs
    · intro entry hentry
      rw [h] at hentry
      cases hentry
  | @update shelf' id current changes hu hget hruns =>
    by_cases heq : shelf = shelf'
    · subst heq
      exact allOn_set (by rw [Shelf.items_put, if_pos rfl]) (hP.changed hu (hs _ (Dict.mem_of_get hget))) hs
    · exact allOn_of_eq (by rw [Shelf.items_put, if_neg heq]) hs
  | updateRun | log => exact allOn_of_eq (by cases shelf <;> first | rfl | exact absurd rfl hshelf) hs
  | openApprovals runId => exact allOn_of_eq (items_openApprovals ..) hs
  | openDeliveries endpointId => exact allOn_of_eq (items_openDeliveries ..) hs
  | forget datasetId =>
    intro entry hentry
    refine hs entry ?_
    cases shelf with
    | datasets => exact List.mem_of_mem_filter hentry
    | _ => exact hentry
  | draw | result | idempotency => exact allOn_of_eq (by cases shelf <;> rfl) hs

theorem allOn_restore (hP : Lasting T shelf P) {m snapshot : Memory} (hm : AllOn shelf P m)
    (h : serialise m = some snapshot) : AllOn shelf P (restore snapshot) := fun entry hentry => by
  rw [items_restore] at hentry
  obtain ⟨item, hitem, hencoded⟩ := Dict.mem_written (items_serialised h shelf) hentry
  exact hP.encoded (hm _ hitem) hencoded

/-- Every item on the shelf is so, at the end of every history on the terms. -/
theorem allOn_run {o : SetOrder} (hshelf : shelf ≠ .runs) (hP : Lasting T shelf P) {es : List Event} {s : SqliteStore}
    (h : Run (fun s e => some (SqliteStore.step o s e)) (Under T) .init es s) : s.Inv ∧ s.Holds (AllOn shelf P) :=
  holds_run (fun entry hentry => by cases shelf <;> cases hentry) (allOn_restore hP) (allOn_write hshelf hP) h

end

end AutomlApi.Store
