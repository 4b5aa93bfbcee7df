import AutomlApi.Store.Stock

/-! What a write does to one run: to its entry, its log and its outputs. -/

namespace AutomlApi.Store

open Act Runs

def outputsOf (m : Memory) (runId : String) : Dict String Fields := (Shelf.outputs runId).items m

/-- What one write of an operation that has started in `m₀` does to a run. -/
inductive Touches (m₀ : Memory) (T : Terms) (runId : String) (s t : Memory) : Prop
  | spares (hrun : t.runs.get runId = s.runs.get runId) (hlog : logOf t runId = logOf s runId)
    (houtputs : outputsOf t runId = outputsOf s runId)
  | opens {given item : Fields} (hc : T.created .runs given) (hnew : New m₀ s .runs given item runId)
    (hrun : t.runs.get runId = some item) (hlog : logOf t runId = []) (houtputs : outputsOf t runId = [])
  | patches {current changes : Fields} {revision : Option ℤ} (hu : T.changed .runs changes)
    (hget : s.runs.get runId = some current) (hrun : t.runs.get runId = some (patched current changes revision))
    (hlog : logOf t runId = logOf s runId) (houtputs : outputsOf t runId = outputsOf s runId)
  | logs {current given event : Fields} (he : T.logged given) (hgiven : Resembles event given)
    (hget : s.runs.get runId = some current)
    (hrun : t.runs.get runId = some (current.set "snapshot_seq" (.int ((logOf s runId).length + 1))))
    (hlog : logOf t runId = logOf s runId ++ [event]) (houtputs : outputsOf t runId = outputsOf s runId)
  | adds {given item : Fields} {id : String} (hc : T.created (.outputs runId) given)
    (hnew : New m₀ s (.outputs runId) given item id) (hrun : t.runs.get runId = s.runs.get runId)
    (hlog : logOf t runId = logOf s runId) (houtputs : outputsOf t runId = (outputsOf s runId).set id item)
  | revises {id : String} {current changes : Fields} (hu : T.changed (.outputs runId) changes)
    (hget : (outputsOf s runId).get id = some current) (hrun : t.runs.get runId = s.runs.get runId)
    (hlog : logOf t runId = logOf s runId)
    (houtputs : outputsOf t runId = (outputsOf s runId).set id (current.update (changes.erase "output_id")))

theorem logOf_put (shelf : Shelf) (m : Memory) (d : Dict String Fields) (runId : String) :
    logOf (shelf.put m d) runId = logOf m runId := by
  cases shelf <;> rfl

theorem write_touches {m₀ s t : Memory} {T : Terms} (h : Write m₀ T s t) (runId : String) :
    Touches m₀ T runId s t := by
  cases h with
  | insert hc hnew hruns =>
    rename_i shelf given item id
    have hrun := congrArg (Dict.get · runId) (runs_put hruns s ((shelf.items s).set id item))
    by_cases hshelf : shelf = .outputs runId
    · subst hshelf
      exact .adds hc hnew hrun (logOf_put ..) (by rw [outputsOf, Shelf.items_put, if_pos rfl, outputsOf])
    · exact .spares hrun (logOf_put ..) (by rw [outputsOf, Shelf.items_put, if_neg (Ne.symm hshelf), outputsOf])
  | insertRun hc hnew =>
    rename_i given item id
    by_cases hid : runId = id
    · subst hid
      refine .opens hc hnew ?_ ?_ ?_
      · exact Dict.get_set_self ..
      · simp only [logOf, openRun, Dict.get_set_self, Option.getD_some]
      · show ((s.outputs.set runId []).get runId).getD [] = []
        rw [Dict.get_set_self]
        rfl
    · refine .spares ?_ ?_ ?_
      · simp only [openRun, putRun, Dict.get_set, if_neg hid]
      · simp only [logOf, openRun, putRun, Dict.get_set, if_neg hid]
      · show ((s.outputs.set id []).get runId).getD [] = (s.outputs.get runId).getD []
        rw [Dict.get_set, if_neg hid]
  | update hu hget hruns =>
    rename_i shelf id current changes
    have hrun := congrArg (Dict.get · runId)
      (runs_put hruns s ((shelf.items s).set id (current.update (changes.erase shelf.idField))))
    by_cases hshelf : shelf = .outputs runId
    · subst hshelf
      exact .revises hu hget hrun (logOf_put ..) (by rw [outputsOf, Shelf.items_put, if_pos rfl]; rfl)
    · exact .spares hrun (logOf_put ..) (by rw [outputsOf, Shelf.items_put, if_neg (Ne.symm hshelf), outputsOf])
  | updateRun hu hget revision =>
    rename_i id current changes
    by_cases hid : runId = id
    · subst hid
      exact .patches hu hget (Dict.get_set_self ..) rfl rfl
    · exact .spares (by simp only [putRun, Dict.get_set, if_neg hid]) rfl rfl
  | log hrun he hgiven =>
    rename_i id given event
    by_cases hid : runId = id
    · subst hid
      obtain ⟨current, hget⟩ := Option.isSome_iff_exists.mp hrun
      refine .logs he hgiven hget ?_ ?_ rfl
      · simp only [pushEvent, Dict.get_set_self, hget, Option.getD_some]
        rfl
      · simp only [logOf, pushEvent, Dict.get_set_self, Option.getD_some]
    · refine .spares ?_ ?_ rfl
      · simp only [pushEvent, Dict.get_set, if_neg hid]
      · simp only [logOf, pushEvent, Dict.get_set, if_neg hid]
  | draw | openApprovals | openDeliveries | forget | result | idempotency => exact .spares rfl rfl rfl

/-! ### A new output -/

/-- The terms of an operation that only draws ids. -/
def nothing : Terms := ⟨fun _ _ => False, fun _ _ => False, fun _ => False⟩

/-- The run is as it was. -/
structure Spares (runId : String) (s t : Memory) : Prop where
  run : t.runs.get runId = s.runs.get runId
  log : logOf t runId = logOf s runId
  outputs : outputsOf t runId = outputsOf s runId

theorem spares_of_nothing {m₀ s t : Memory} (h : Writes m₀ nothing s t) (runId : String) : Spares runId s t := by
  refine h.climb (fun _ => ⟨rfl, rfl, rfl⟩) (fun s t u h h' => ⟨h'.run.trans h.run, h'.log.trans h.log,
    h'.outputs.trans h.outputs⟩) fun hwrite => ?_
  cases write_touches hwrite runId with
  | spares hrun hlog houtputs => exact ⟨hrun, hlog, houtputs⟩
  | opens hc | patches hc | logs hc | adds hc | revises hc => exact hc.elim

/-- What follows a first part that only reads may not happen. -/
theorem reading_cases {α β : Type} {p : StoreM α} {k : α → StoreM β} {m : Memory} (hp : (p m).2 = m) :
    ((p >>= k) m).2 = m ∨ ∃ a, ((p >>= k) m).2 = (k a m).2 := by
  rw [bind_eq]
  cases h : p m with
  | mk r t =>
    rw [h] at hp
    subst hp
    cases r with
    | ok a => exact .inr ⟨a, rfl⟩
    | error fault => exact .inl rfl

/-- The creation of an output leaves every run as it is, or adds the output to its run. -/
theorem createOutput_cases (runId : String) (value : Value) (m : Memory) : ∃ t, Writes m nothing m t ∧
    ((createOutput runId value m).2 = t ∨ ∃ given output id, value = .dict given ∧
      New m t (.outputs runId) given output id ∧
      (createOutput runId value m).2 = (Shelf.outputs runId).put t ((outputsOf t runId).set id output)) := by
  unfold createOutput
  rcases reading_cases (reads_requireRun runId m) with h | ⟨_, h⟩
  · exact ⟨m, .refl, .inl h⟩
  rw [h]
  rcases reading_cases (reads_requireKey runId Memory.outputs m) with h | ⟨_, h⟩
  · exact ⟨m, .refl, .inl h⟩
  rw [h, createLocked, check_bind]
  cases hmap : mapping "output" value with
  | error fault => exact ⟨m, .refl, .inl rfl⟩
  | ok given =>
    obtain ⟨t, hwrites, -, ⟨fault, h⟩ | ⟨output, id, hnew, -, h⟩⟩ := @insertLocked_cases m m nothing (.outputs runId) given
      "output" [("run_id", .str runId)] rfl fun _ => rfl
    · exact ⟨t, hwrites, .inl (congrArg Prod.snd h)⟩
    · exact ⟨t, hwrites, .inr ⟨given, output, id, mapping_eq_ok hmap, hnew, congrArg Prod.snd h⟩⟩

end AutomlApi.Store
