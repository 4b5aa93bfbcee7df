import AutomlApi.Store.Sqlite

/-! What every state of the store has: each run has its dictionary of approvals and
its event log, and the index of events is the one that a restart builds. So a
restore after a failed checkpoint gives the memory back as it was. -/

namespace AutomlApi.Store

/-- The same memory, but for the id counters. -/
def Same (s t : Memory) : Prop := ∃ counters, t = { s with idCounters := counters }

theorem Same.refl (s : Memory) : Same s s := ⟨s.idCounters, rfl⟩

theorem Same.trans (s t u : Memory) : Same s t → Same t u → Same s u := by
  rintro ⟨_, rfl⟩ ⟨counters, rfl⟩
  exact ⟨counters, rfl⟩

structure Memory.Inv (m : Memory) : Prop where
  approvals : ∀ runId, m.runs.has runId → m.approvals.has runId
  events : ∀ runId, m.runs.has runId → m.events.has runId
  index : m.eventIds = indexed m.events

theorem inv_empty : Memory.empty.Inv := ⟨by simp [Memory.empty, Dict.has], by simp [Memory.empty, Dict.has], rfl⟩

/-! ### Restoring -/

theorem has_of_mem {α : Type} {d : Dict String α} {p : String × α} (h : p ∈ d) : d.has p.1 := by
  simp only [Dict.has, Dict.get, Option.isSome_map, List.find?_isSome]
  exact ⟨p, h, by simp⟩

theorem foldl_setDefault {α : Type} {d : Dict String (Dict String Fields)} {l : Dict String α}
    (h : ∀ p ∈ l, d.has p.1) : l.foldl (fun d p => d.setDefault p.1 []) d = d := by
  induction l with
  | nil => rfl
  | cons p l ih =>
    rw [List.foldl_cons, Dict.setDefault_of_has (h p List.mem_cons_self)]
    exact ih fun q hq => h q (List.mem_cons_of_mem p hq)

/-- A restore to what the memory is changes nothing. -/
theorem restore_eq {m : Memory} (h : m.Inv) : restore m = m := by
  rw [restore, foldl_setDefault fun p hp => h.approvals p.1 (has_of_mem hp), ← h.index]

theorem has_foldl_setDefault {α : Type} (l : Dict String α) (d : Dict String (Dict String Fields)) (k : String)
    (h : d.has k ∨ ∃ p ∈ l, p.1 = k) : (l.foldl (fun d p => d.setDefault p.1 []) d).has k := by
  induction l generalizing d with
  | nil => simpa using h
  | cons p l ih =>
    rw [List.foldl_cons]
    apply ih
    rcases h with h | ⟨q, hq, rfl⟩
    · refine .inl ?_
      unfold Dict.setDefault
      split
      · exact h
      · rw [Dict.has_set, h, Bool.or_true]
    · rcases List.mem_cons.mp hq with rfl | hq
      · refine .inl ?_
        unfold Dict.setDefault
        split
        · assumption
        · simp [Dict.has_set]
      · exact .inr ⟨q, hq, rfl⟩

/-! ### What leaves runs and events alone -/

/-- No new run, no fewer approvals, the same events. -/
structure Quiet (s t : Memory) : Prop where
  runs : ∀ runId, t.runs.has runId → s.runs.has runId
  approvals : ∀ runId, s.approvals.has runId → t.approvals.has runId
  events : t.events = s.events
  eventIds : t.eventIds = s.eventIds

theorem Quiet.refl (s : Memory) : Quiet s s := ⟨fun _ h => h, fun _ h => h, rfl, rfl⟩

theorem Quiet.trans (s t u : Memory) (h : Quiet s t) (h' : Quiet t u) : Quiet s u :=
  ⟨fun r hr => h.runs r (h'.runs r hr), fun r hr => h'.approvals r (h.approvals r hr),
    h'.events.trans h.events, h'.eventIds.trans h.eventIds⟩

theorem Same.quiet {s t : Memory} (h : Same s t) : Quiet s t := by
  obtain ⟨_, rfl⟩ := h
  exact ⟨fun _ h => h, fun _ h => h, rfl, rfl⟩

theorem Quiet.inv {s t : Memory} (h : Quiet s t) (hs : s.Inv) : t.Inv :=
  ⟨fun r hr => h.approvals r (hs.approvals r (h.runs r hr)),
    fun r hr => by rw [h.events]; exact hs.events r (h.runs r hr),
    by rw [h.eventIds, h.events, hs.index]⟩

end AutomlApi.Store
