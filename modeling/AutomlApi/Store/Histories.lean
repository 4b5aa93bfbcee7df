import AutomlApi.Store.Log
import AutomlApi.Store.Writes

/-! Histories of calls on given terms. What every write keeps on these terms, and every
restart, holds at the end of each of them. -/

namespace AutomlApi.Store

open Runs

/-- A step of a history whose calls keep to the terms. -/
def Under (T : Memory → Terms) (s : SqliteStore) : Event → Prop
  | .call _ op => op = .reset ∨ op.Meets (T s.memory)
  | _ => True

section

variable {T : Memory → Terms} {P : Memory → Prop}

theorem holds_step (o : SetOrder) (hempty : P .empty)
    (hrestore : ∀ {m snapshot}, P m → serialise m = some snapshot → P (restore snapshot))
    (hwrite : ∀ {m s t}, Write m (T m) s t → P s → P t) {s : SqliteStore} (hinv : s.Inv) (hs : s.Holds P) {e : Event}
    (he : Under T s e) : (s.step o e).Holds P := by
  refine hs.step hinv.memory hempty hrestore (fun disk op h hreset => ?_)
    (fun runId => hwrite (m := s.memory) (.openApprovals _ runId) hs.memory)
    fun endpointId => hwrite (m := s.memory) (.openDeliveries _ endpointId) hs.memory
  subst h
  have hmeets : op.Meets (T s.memory) := he.resolve_left hreset
  exact (Op.writes o hmeets).climb (R := fun s t => P s → P t) (fun _ h => h) (fun _ _ _ h h' hs => h' (h hs)) hwrite
    hs.memory

/-- A history on the terms, with restarts and failures of the disk, ends where `P` holds. -/
theorem holds_run {o : SetOrder} (hempty : P .empty)
    (hrestore : ∀ {m snapshot}, P m → serialise m = some snapshot → P (restore snapshot))
    (hwrite : ∀ {m s t}, Write m (T m) s t → P s → P t) {es : List Event} {s : SqliteStore}
    (h : Run (fun s e => some (SqliteStore.step o s e)) (Under T) .init es s) : s.Inv ∧ s.Holds P := by
  refine h.invariant (I := fun s => s.Inv ∧ s.Holds P) (fun s e u hs he hu => ?_) ⟨?_, hempty, ?_⟩
  · cases hu
    exact ⟨inv_step o hs.1 e, holds_step o hempty hrestore hwrite hs.1 hs.2 he⟩
  · exact inv_reachable (o := o) ⟨[], .nil _⟩
  · show P (restore .empty)
    rwa [restore_eq inv_empty]

end

end AutomlApi.Store
