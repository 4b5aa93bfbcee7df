import AutomlApi.Store.Recorded

/-! The event logs over whole histories of the store. Whatever the calls, the failures of
the disk and the restarts, a log has each event once, under an id of its own and under the
next number, the index of ids has what the log has, and a restart takes a log back to
what it was at the checkpoint, never to anything else. -/

namespace AutomlApi.Chronicle

open Store Runs Act

theorem formatId_injective (kind : String) : Function.Injective (formatId kind) := by
  intro a b h
  have hlist := congrArg String.toList h
  rw [toList_formatId, toList_formatId, List.append_cancel_left_eq, List.cons.injEq] at hlist
  rw [← Digits.ofDigitChars_padded 12 a, hlist.2, Digits.ofDigitChars_padded]

/-! ### What a log has -/

/-- An id that the generator of event ids is still to give. -/
def Ahead (m : Memory) (id : String) : Prop := ∃ n, counterOf m "evt" < n ∧ id = formatId "evt" n

/-- A log has each event under an id of its own, and none under an id to come. -/
structure Dated (m : Memory) (log : List Fields) : Prop where
  named : ∀ event ∈ log, event.get "event_id" = some (.str (eventId event)) ∧ eventId event ≠ ""
  nodup : (log.map eventId).Nodup
  given : ∀ event ∈ log, ¬ Ahead m (eventId event)

/-- The log of every run is such a log. -/
def AllDated (m : Memory) : Prop := ∀ runId, m.runs.has runId → Dated m (logOf m runId)

/-- The event that a call brings has no id, or one that the generator has passed. -/
def Timely (m : Memory) : Value → Prop :=
  Meets fun fields => ∀ id, fields.get "event_id" = some (.str id) → ¬ Ahead m id

theorem Ahead.mono {s t : Memory} (h : counterOf s "evt" ≤ counterOf t "evt") {id : String} :
    Ahead t id → Ahead s id := by
  rintro ⟨n, hn, rfl⟩
  exact ⟨n, h.trans_lt hn, rfl⟩

theorem Dated.mono {s t : Memory} (h : counterOf s "evt" ≤ counterOf t "evt") {log : List Fields} (hd : Dated s log) :
    Dated t log :=
  ⟨hd.named, hd.nodup, fun event he ha => hd.given event he (ha.mono h)⟩

theorem Timely.mono {s t : Memory} (h : counterOf s "evt" ≤ counterOf t "evt") {value : Value} (hv : Timely s value) :
    Timely t value :=
  meets_mono (fun _ hf id hid ha => hf id hid (ha.mono h)) hv

theorem dated_nil (m : Memory) : Dated m [] := ⟨by simp, by simp, by simp⟩

theorem Dated.append {m : Memory} {log : List Fields} (hd : Dated m log) {event : Fields} {id : String}
    (hid : event.get "event_id" = some (.str id)) (hne : id ≠ "") (hnew : id ∉ log.map eventId)
    (hgiven : ¬ Ahead m id) :
    Dated m (log ++ [event]) := by
  have heq : eventId event = id := by
    rw [eventId, hid]
    simp [Value.nonEmptyString?, hne]
  refine ⟨fun e he => ?_, ?_, fun e he => ?_⟩
  · rcases List.mem_append.mp he with he | he
    · exact hd.named e he
    · rw [List.mem_singleton.mp he, heq]
      exact ⟨hid, hne⟩
  · rw [List.map_append, List.map_singleton, List.nodup_append, heq]
    refine ⟨hd.nodup, List.nodup_singleton _, fun a ha b hb => ?_⟩
    rw [List.mem_singleton.mp hb]
    exact fun hab => hnew (hab ▸ ha)
  · rcases List.mem_append.mp he with he | he
    · exact hd.given e he
    · rw [List.mem_singleton.mp he, heq]
      exact hgiven

/-! ### The index of ids -/

theorem get_foldl_index (log : List Fields) (d : Dict String Fields) (id : String) :
    (log.foldl (fun ids event => Dict.set ids (eventId event) event) d).get id
      = (log.reverse.find? (eventId · == id)).or (d.get id) := by
  induction log generalizing d with
  | nil => rfl
  | cons event log ih =>
    rw [List.foldl_cons, ih, Dict.get_set, List.reverse_cons, List.find?_append, Option.or_assoc]
    congr 1
    by_cases hid : eventId event = id
    · simp [hid]
    · simp [hid, Ne.symm hid]

/-- The index of a run. -/
def indexOf (m : Memory) (runId : String) : Dict String Fields := (m.eventIds.get runId).getD []

theorem get_indexOf {m : Memory} (hm : m.Inv) (runId id : String) :
    (indexOf m runId).get id = (logOf m runId).reverse.find? (eventId · == id) := by
  rw [indexOf, hm.index, indexed, Dict.get_mapValues, logOf]
  cases m.events.get runId with
  | none => rfl
  | some log =>
    rw [Option.map_some, Option.getD_some, Option.getD_some, get_foldl_index]
    exact Option.or_none

/-- Where each event has an id of its own, the index has under an id the event that the log has. -/
theorem get_indexOf_iff {m : Memory} (hm : m.Inv) {runId : String} (hd : Dated m (logOf m runId)) {id : String}
    {event : Fields} : (indexOf m runId).get id = some event ↔ event ∈ logOf m runId ∧ eventId event = id := by
  rw [get_indexOf hm]
  constructor
  · intro h
    exact ⟨List.mem_reverse.mp (List.mem_of_find?_eq_some h), by simpa using List.find?_some h⟩
  · rintro ⟨hmem, rfl⟩
    obtain ⟨found, hfound⟩ : ∃ found, (logOf m runId).reverse.find? (eventId · == eventId event) = some found :=
      Option.isSome_iff_exists.mp (List.find?_isSome.mpr ⟨event, List.mem_reverse.mpr hmem, by simp⟩)
    have heq : eventId found = eventId event := by simpa using List.find?_some hfound
    rw [hfound, List.inj_on_of_nodup_map hd.nodup (List.mem_reverse.mp (List.mem_of_find?_eq_some hfound)) hmem heq]

theorem not_mem_of_indexOf {m : Memory} (hm : m.Inv) {runId id : String} (h : (indexOf m runId).get id = none) :
    id ∉ (logOf m runId).map eventId := by
  rw [get_indexOf hm, List.find?_eq_none] at h
  intro hmem
  obtain ⟨event, he, rfl⟩ := List.mem_map.mp hmem
  exact h event (List.mem_reverse.mpr he) (beq_self_eq_true (eventId event))

/-! ### Recording -/

/-- An event to append has no id, or one that the index does not have. -/
theorem prepareEvent_fresh {runId : String} {value : Value} {m : Memory} {event : Fields}
    (h : prepareEvent runId value m = .ok (.fresh event)) :
    (∃ fields : Fields, value = .dict fields ∧ fields.get "event_id" = event.get "event_id") ∧
      event.get "run_id" = some (.str runId) ∧
      (event.get "event_id" = none ∨ event.get "event_id" = some .null ∨
        ∃ id, event.get "event_id" = some (.str id) ∧ id ≠ "" ∧ (indexOf m runId).get id = none) := by
  have hid : ∀ {event' : Fields}, prepareEvent.identified runId m event' = .ok (.fresh event) →
      event' = event ∧ (event.get "event_id" = none ∨ event.get "event_id" = some .null ∨
        ∃ id, event.get "event_id" = some (.str id) ∧ id ≠ "" ∧ (indexOf m runId).get id = none) := by
    intro event' h
    obtain rfl := (fresh_of_identified h).symm
    refine ⟨rfl, ?_⟩
    unfold prepareEvent.identified at h
    split at h
    · exact .inl ‹_›
    · exact .inr (.inl ‹_›)
    · rename_i v _ hv
      split at h
      · cases h
      · rename_i id hname
        have hstr : v = .str id ∧ id ≠ "" := by
          cases v with
          | str text =>
            simp only [Value.nonEmptyString?] at hname
            split at hname
            · cases hname
            · cases hname
              exact ⟨rfl, ‹_›⟩
          | _ => cases hname
        split at h
        · cases h
        · rename_i ids hids
          split at h
          · rename_i hfree
            refine .inr (.inr ⟨id, by rw [hv, hstr.1], hstr.2, ?_⟩)
            rw [indexOf, hids, Option.getD_some, hfree]
          · dsimp only at h
            split at h <;> cases h
  unfold prepareEvent at h
  split at h
  · cases h
  cases hmap : mapping "event" value with
  | error fault =>
    rw [hmap] at h
    cases h
  | ok fields =>
    rw [hmap] at h
    simp only [Bind.bind, Except.bind] at h
    have hsame : (fields.set "run_id" (.str runId)).get "event_id" = fields.get "event_id" := by
      rw [Dict.get_set, if_neg (by decide)]
    split at h
    · split at h
      · obtain ⟨rfl, hcases⟩ := hid h
        exact ⟨⟨fields, mapping_eq_ok hmap, hsame.symm⟩, Dict.get_set_self .., hcases⟩
      · cases h
    · obtain ⟨rfl, hcases⟩ := hid h
      exact ⟨⟨fields, mapping_eq_ok hmap, hsame.symm⟩, Dict.get_set_self .., hcases⟩

theorem get_id_stamped (runId : String) (event : Fields) (m : Memory) :
    (stamped runId event m).get "event_id" = (identified event m).get "event_id" := by
  simp only [stamped, Dict.setDefault]
  split
  · rw [Dict.get_set, if_neg (by decide)]
  · rw [Dict.get_set, if_neg (by decide), Dict.get_set, if_neg (by decide)]

/-- The log with a new event is such a log again, once the generator has given the id that was drawn for it. -/
theorem dated_stamped {m t : Memory} (hm : m.Inv) {runId : String} (hd : Dated m (logOf m runId)) {value : Value}
    (hv : Timely m value) {event : Fields} (h : prepareEvent runId value m = .ok (.fresh event))
    (ht : counterOf m "evt" + drawsEvent event ≤ counterOf t "evt") :
    Dated t (logOf m runId ++ [stamped runId event m]) := by
  have hle : counterOf m "evt" ≤ counterOf t "evt" := (Nat.le_add_right _ _).trans ht
  have hold := hd.mono hle
  have hdrawn : identified event m = event.set "event_id" (.str (formatId "evt" (counterOf m "evt" + 1))) →
      drawsEvent event = 1 → Dated t (logOf m runId ++ [stamped runId event m]) := by
    intro hset hone
    rw [hone] at ht
    refine hold.append (by rw [get_id_stamped, hset, Dict.get_set_self]) (formatId_ne _ _) (fun hmem => ?_) ?_
    · obtain ⟨e, he, heq⟩ := List.mem_map.mp hmem
      exact hd.given e he ⟨_, Nat.lt_succ_self _, heq⟩
    · rintro ⟨n, hn, heq⟩
      rw [← formatId_injective _ heq] at hn
      omega
  obtain ⟨⟨fields, rfl, hsame⟩, -, hnone | hnull | ⟨id, hid, hne, hfree⟩⟩ := prepareEvent_fresh h
  · exact hdrawn (by rw [identified, hnone]) (by rw [drawsEvent, hnone])
  · exact hdrawn (by rw [identified, hnull]) (by rw [drawsEvent, hnull])
  · have hsupplied : identified event m = event := by rw [identified, hid]
    refine hold.append (by rw [get_id_stamped, hsupplied, hid]) hne (not_mem_of_indexOf hm hfree) fun ha => ?_
    exact hv id (hsame.trans hid) (ha.mono hle)

theorem dated_recordEvent (o : SetOrder) {m : Memory} (hm : m.Inv) (hd : AllDated m) {runId : String} {value : Value}
    (hv : Timely m value) : AllDated (recordEvent o runId value m).2 := by
  cases hp : prepareEvent runId value m with
  | error fault =>
    have heq : (recordEvent o runId value m).2 = m := by
      rw [recordEvent, bind_eq, append_error hp]
    rwa [heq]
  | ok p =>
    cases p with
    | existing event =>
      have heq : (recordEvent o runId value m).2 = m := by
        rw [recordEvent, bind_eq, append_existing hp]
        rfl
      rwa [heq]
    | fresh event =>
      obtain ⟨t, hsame, -, hcount, happ⟩ := append_fresh hm hp
      -- the deliveries draw ids of their own, and touch no log
      have hposted : Posted (pushEvent runId (stamped runId event m) t) (recordEvent o runId value m).2 ∧
          counterOf t "evt" ≤ counterOf (recordEvent o runId value m).2 "evt" := by
        rw [recordEvent, bind_eq, happ]
        refine ⟨within_bind Posted.trans (posted_announce o runId _) (fun _ => within_pure Posted.refl _) _, ?_⟩
        have hwrites : Writes t anything (pushEvent runId (stamped runId event m) t)
            ((appendWebhookDeliveriesLocked o runId (stamped runId event m) >>= fun _ => pure (stamped runId event m))
              (pushEvent runId (stamped runId event m) t)).2 :=
          writes_bind (writes_check fun ids _ => writes_deliver _ _ (fun _ => trivial) ids) fun _ _ _ => .refl
        exact counter_writes hwrites "evt"
      obtain ⟨counters, rfl⟩ := hsame
      have hcounter := hcount ▸ hposted.2
      have hle : counterOf m "evt" ≤ counterOf (recordEvent o runId value m).2 "evt" :=
        (Nat.le_add_right _ _).trans hcounter
      intro r hr
      have hlog : logOf (recordEvent o runId value m).2 r
          = if r = runId then logOf m runId ++ [stamped runId event m] else logOf m r := by
        simp only [logOf, hposted.1.events, pushEvent, Dict.get_set]
        split <;> rfl
      rw [hlog]
      split
      · exact dated_stamped hm (hd runId (has_of_prepareEvent hp)) hv hp hcounter
      · exact (hd r (has_recordEvent o runId value hm r hr)).mono hle

/-! ### Every operation -/

theorem allDated_of_eq {s t : Memory} (hruns : ∀ r, t.runs.has r → s.runs.has r) (hevents : t.events = s.events)
    (hcounter : counterOf s "evt" ≤ counterOf t "evt") (hd : AllDated s) : AllDated t := fun r hr => by
  rw [logOf, hevents]
  exact (hd r (hruns r hr)).mono hcounter

theorem timely_revised {m : Memory} {run : Fields} {value event : Value} (hv : Timely m value)
    (h : revised run value = .ok event) : Timely m event := by
  unfold revised at h
  cases hmap : mapping "event" value with
  | error fault =>
    rw [hmap] at h
    cases h
  | ok fields =>
    rw [hmap] at h
    cases h
    have hfields := meets_of_mapping hv hmap
    intro id hid
    rw [Dict.get_set, if_neg (by decide)] at hid
    exact hfields id hid

theorem recorded_dated (o : SetOrder) : Recorded o Timely AllDated where
  drawn hsame hcounter hd := by
    have hquiet := hsame.quiet
    exact allDated_of_eq hquiet.runs hquiet.events (hcounter "evt") hd
  result {m} hd _ _ := allDated_of_eq (s := m) (fun _ h => h) rfl (Nat.le_refl _) hd
  patched {m} hd runId current hrun changes revision := by
    refine allDated_of_eq (s := m) (fun r hr => ?_) rfl (Nat.le_refl _) hd
    rw [putRun, Dict.has_set, Bool.or_eq_true, decide_eq_true_eq] at hr
    rcases hr with rfl | hr
    · exact Dict.has_of_get hrun
    · exact hr
  recorded hm hd _ _ hv := dated_recordEvent o hm hd hv
  later hcounter _ hv := hv.mono (hcounter "evt")
  revised hv _ _ h := timely_revised hv h

/-- The logs that were there stay as they are, and a new run has an empty one. -/
def Untouched (s t : Memory) : Prop := ∀ r, t.runs.has r → logOf t r = if s.runs.has r then logOf s r else []

/-- The runs stay, and so do their logs. -/
def Leaves (s t : Memory) : Prop := (∀ r, s.runs.has r → t.runs.has r) ∧ Untouched s t

theorem leaves_of_eq {s t : Memory} (hruns : ∀ r, t.runs.has r = s.runs.has r) (hevents : t.events = s.events) :
    Leaves s t := by
  refine ⟨fun r hr => hruns r ▸ hr, fun r hr => ?_⟩
  rw [if_pos (hruns r ▸ hr), logOf, hevents, logOf]

theorem leaves_created (value : Value) (m : Memory) : Leaves m (createRun value m).2 := by
  refine ⟨fun r hr => (rests_created r value m hr).1, fun r hr => ?_⟩
  by_cases hold : m.runs.has r
  · rw [if_pos hold]
    exact (rests_created r value m hold).2
  rw [if_neg hold]
  cases hcreate : createRun value m with
  | mk result s =>
    rw [hcreate] at hr
    cases result with
    | error fault =>
      obtain ⟨_, rfl⟩ := clean_createRun value m fault s hcreate
      exact absurd hr hold
    | ok created =>
      obtain ⟨item, -, hcreate⟩ := check_bind_ok hcreate
      obtain ⟨created', s₁, h₁, hcreate⟩ := bind_eq_ok hcreate
      obtain ⟨id, t, hid, ⟨counters, rfl⟩, -, rfl⟩ := createLocked_eq_ok h₁
      cases hcreate
      have hr' : r = id := by
        simp only [Collection.runs, Dict.has_set, Bool.or_eq_true, decide_eq_true_eq] at hr
        exact hr.resolve_right hold
      subst hr'
      simp [hid, Collection.runs, logOf]

theorem logFrame_leaves (o : SetOrder) : LogFrame o (fun _ => true) (fun _ => False) Leaves where
  refl s := leaves_of_eq (fun _ => rfl) rfl
  trans s t u hst htu := by
    refine ⟨fun r hr => htu.1 r (hst.1 r hr), fun r hr => ?_⟩
    rw [htu.2 r hr]
    by_cases ht : t.runs.has r
    · rw [if_pos ht, hst.2 r ht]
    · rw [if_neg ht, if_neg (mt (hst.1 r) ht)]
  same hsame := by
    obtain ⟨_, rfl⟩ := hsame
    exact leaves_of_eq (fun _ => rfl) rfl
  plain hc m d := by
    refine leaves_of_eq (fun r => ?_) (hc.quiet m d).events
    cases hc <;> rfl
  results m d := leaves_of_eq (fun _ => rfl) rfl
  idempotency m d := leaves_of_eq (fun _ => rfl) rfl
  created _ value _ := leaves_created value _
  patched _ runId current hrun changes revision := by
    refine leaves_of_eq (fun r => ?_) rfl
    rw [putRun, Dict.has_set]
    by_cases hr : r = runId
    · rw [hr, Dict.has_of_get hrun, Bool.or_true]
    · rw [decide_eq_false hr, Bool.false_or]
  recorded _ _ h _ := h.elim

theorem dated_method (o : SetOrder) {op : Op} {m : Memory} (hop : op.Brings (Timely m)) (hreset : op ≠ .reset) (hm : m.Inv)
    (hd : AllDated m) : AllDated (op.method o m).2 := by
  by_cases hrecords : op.records = none
  · have hcreates : op.creates fun _ => true := by
      cases op with
      | reset => exact absurd rfl hreset
      | _ => rfl
    have hleaves := (logFrame_leaves o).method hm hcreates fun runId h => by simp [hrecords] at h
    intro r hr
    rw [hleaves.2 r hr]
    split
    · exact (hd r ‹_›).mono (counter_method o hreset m "evt")
    · exact dated_nil _
  · exact (recorded_dated o).method hm hd hrecords hop

/-! ### Restarts -/

mutual

/-- What was read back is written and read back as it is. -/
theorem encode_encode {v w : Value} (h : v.encode = some w) : w.encode = some w := by
  cases v with
  | list items =>
    obtain ⟨items', hitems, rfl⟩ := Option.map_eq_some_iff.mp h
    rw [Value.encode, Value.encodeIn, encodeItems_encodeItems hitems]
    rfl
  | dict fields =>
    obtain ⟨entries, hentries, rfl⟩ := Option.map_eq_some_iff.mp h
    rw [Value.encode_dict, Value.encodeFields, Dict.written_self (encode_entries hentries)]
    rfl
  | float x => cases x <;> cases h <;> rfl
  | adapted v _ => exact encode_encode (v := v) h
  | object _ _ => cases h
  | _ =>
    cases h
    rfl

theorem encodeItems_encodeItems {items items' : List Value} (h : Value.encodeItems Dict.sortKeys items = some items') :
    Value.encodeItems Dict.sortKeys items' = some items' := by
  cases items with
  | nil =>
    cases h
    rfl
  | cons v items =>
    obtain ⟨w, hw, h⟩ := Option.bind_eq_some_iff.mp h
    obtain ⟨rest, hrest, rfl⟩ := Option.map_eq_some_iff.mp h
    rw [Value.encodeItems, ← Value.encode, encode_encode hw, encodeItems_encodeItems hrest]
    rfl

theorem encode_entries {fields entries : Fields} (h : Value.encodeEntries Dict.sortKeys fields = some entries) :
    ∀ p ∈ entries, p.2.encode = some p.2 := by
  cases fields with
  | nil =>
    cases h
    simp
  | cons p fields =>
    obtain ⟨w, hw, h⟩ := Option.bind_eq_some_iff.mp h
    obtain ⟨rest, hrest, rfl⟩ := Option.map_eq_some_iff.mp h
    exact List.forall_mem_cons.mpr ⟨encode_encode hw, encode_entries hrest⟩

end

theorem encodeFields_encodeFields {fields fields' : Fields} (h : Value.encodeFields fields = some fields') :
    Value.encodeFields fields' = some fields' := by
  obtain ⟨entries, hentries, rfl⟩ := Option.map_eq_some_iff.mp h
  exact Dict.written_self (encode_entries ((Value.encodeEntries_eq_traverse _ fields).trans hentries))

theorem mapM_encodeFields {log log' : List Fields} (h : log.mapM Value.encodeFields = some log') :
    log'.mapM Value.encodeFields = some log' := by
  have hall := forall₂_of_mapM h
  clear h
  induction hall with
  | nil => rfl
  | cons hevent _ ih =>
    rw [List.mapM_cons, encodeFields_encodeFields hevent, ih]
    rfl

theorem ids_encoded {log log' : List Fields} (h : log.mapM Value.encodeFields = some log')
    (hnamed : ∀ event ∈ log, event.get "event_id" = some (.str (eventId event)) ∧ eventId event ≠ "") :
    log'.map eventId = log.map eventId ∧
      ∀ event ∈ log', event.get "event_id" = some (.str (eventId event)) ∧ eventId event ≠ "" := by
  have hall := forall₂_of_mapM h
  clear h
  induction hall with
  | nil => exact ⟨rfl, by simp⟩
  | @cons event event' _ _ hevent _ ih =>
    obtain ⟨hget, hne⟩ := hnamed event List.mem_cons_self
    have hget' : event'.get "event_id" = some (.str (eventId event)) := by
      rw [← get_encodeFields hevent, hget]
      rfl
    have hid : eventId event' = eventId event := by
      rw [eventId, hget']
      simp [Value.nonEmptyString?, hne]
    obtain ⟨hids, hrest⟩ := ih fun e he => hnamed e (List.mem_cons_of_mem _ he)
    refine ⟨by rw [List.map_cons, List.map_cons, hid, hids], fun e he => ?_⟩
    rcases List.mem_cons.mp he with rfl | he
    · rw [hid]
      exact ⟨hget', hne⟩
    · exact hrest e he

theorem dated_restore {m snapshot : Memory} (hd : AllDated m) (h : serialise m = some snapshot) :
    AllDated (restore snapshot) := by
  intro r hr
  obtain ⟨hruns, -, -⟩ := serialise_eq_some h
  have hrun : m.runs.has r := by
    rw [← Dict.has_written hruns]
    exact hr
  have hold := hd r hrun
  obtain ⟨hids, hnamed⟩ := ids_encoded (logOf_serialised h r) hold.named
  have hcounter : counterOf (restore snapshot) "evt" = counterOf m "evt" := counterOf_serialised h _
  refine ⟨hnamed, ?_, fun event he ha => ?_⟩
  · show ((logOf snapshot r).map eventId).Nodup
    rw [hids]
    exact hold.nodup
  · obtain ⟨event', he', heq⟩ := List.mem_map.mp (hids ▸ List.mem_map_of_mem he)
    exact hold.given event' he' (heq ▸ ha.mono hcounter.ge)

/-- What a restart restores is a first part of each log, read back. -/
def Behind (snapshot m : Memory) : Prop :=
  ∀ r, snapshot.runs.has r → m.runs.has r ∧
    ∃ early, early <+: logOf m r ∧ early.mapM Value.encodeFields = some (logOf snapshot r)

theorem Behind.grows {snapshot s t : Memory} (h : Behind snapshot s) (hgrows : ∀ r, Grows r s t) :
    Behind snapshot t := by
  intro r hr
  obtain ⟨hrun, early, hearly, hread⟩ := h r hr
  obtain ⟨hrun', hlog⟩ := hgrows r hrun
  exact ⟨hrun', early, hearly.trans hlog, hread⟩

theorem behind_serialise {m snapshot : Memory} (h : serialise m = some snapshot) : Behind snapshot m := fun r hr => by
  obtain ⟨hruns, -, -⟩ := serialise_eq_some h
  exact ⟨Dict.has_written hruns r ▸ hr, _, List.prefix_rfl, logOf_serialised h r⟩

theorem Behind.restore {snapshot m : Memory} (h : Behind snapshot m) : Behind snapshot (restore snapshot) := by
  intro r hr
  obtain ⟨-, early, -, hread⟩ := h r hr
  exact ⟨hr, _, List.prefix_rfl, mapM_encodeFields hread⟩

/-- A mutation leaves the checkpoint with what the memory became or with what it goes back to, or it is one
of the new memory. -/
theorem durableMutation_cases (p : StoreM Unit) (disk : Bool) {s : SqliteStore} (hs : s.memory.Inv) :
    ((durableMutation p disk s).2.checkpoint = s.checkpoint ∧
      ((durableMutation p disk s).2.memory = s.memory ∨
        (durableMutation p disk s).2.memory = (p s.memory).2 ∧ (p s.memory).1.isOk = false)) ∨
    (durableMutation p disk s).2.memory = (p s.memory).2 ∧
      serialise (p s.memory).2 = some (durableMutation p disk s).2.checkpoint := by
  unfold durableMutation
  cases h : p s.memory with
  | mk r memory =>
    cases r with
    | error fault => exact .inl ⟨rfl, .inr ⟨rfl, rfl⟩⟩
    | ok _ =>
      dsimp only
      cases hser : serialise memory with
      | none => exact .inl ⟨rfl, .inl (restore_eq hs)⟩
      | some snapshot =>
        cases disk with
        | true => exact .inr ⟨rfl, rfl⟩
        | false => exact .inl ⟨rfl, .inl (restore_eq hs)⟩

theorem behind_durableMutation {o : SetOrder} {op : Op} {disk : Bool} {s : SqliteStore} (hs : s.memory.Inv)
    (hb : Behind s.checkpoint s.memory) :
    Behind (durableMutation (op.method o) disk s).2.checkpoint (durableMutation (op.method o) disk s).2.memory := by
  rcases durableMutation_cases (op.method o) disk hs with
    ⟨hcheckpoint, hsame | ⟨hmemory, hfailed⟩⟩ | ⟨hmemory, hser⟩
  · rw [hcheckpoint, hsame]
    exact hb
  · rw [hcheckpoint, hmemory]
    refine hb.grows fun r => (logFrame_grows o r).method hs ?_ fun _ _ => trivial
    cases op with
    | reset => cases hfailed
    | _ => rfl
  · rw [hmemory]
    exact behind_serialise hser

theorem behind_step (o : SetOrder) {s : SqliteStore} (hs : s.memory.Inv) (hb : Behind s.checkpoint s.memory)
    (e : Event) :
    Behind (s.step o e).checkpoint (s.step o e).memory := by
  cases e with
  | call disk op =>
    show Behind (op.apply o disk s).2.checkpoint (op.apply o disk s).2.memory
    have hmutation := @behind_durableMutation o op disk s hs hb
    have hplain : op.apply o disk s = durableMutation (op.method o) disk s →
        Behind (op.apply o disk s).2.checkpoint (op.apply o disk s).2.memory := fun h => by
      rw [h]
      exact hmutation
    cases op with
    | reset =>
      simp only [Op.apply]
      revert hmutation
      cases durableMutation (Op.method o .reset) disk s with
      | mk r s' => cases r <;> exact id
    | job r op =>
      simp only [Op.apply]
      split
      · split <;> exact hb
      · exact hb
    | _ => exact hplain rfl
  | readApprovals runId =>
    simp only [SqliteStore.step]
    split
    · exact hb.grows fun r => (logFrame_grows o r).openApprovals runId _
    · exact hb
  | readDeliveries endpointId =>
    simp only [SqliteStore.step]
    split
    · exact hb.grows fun r => (logFrame_grows o r).openDeliveries endpointId _
    · exact hb
  | reopen => exact hb.restore

/-! ### Histories -/

/-- The events that a step brings have no id or one that the generator has passed, and a run that it creates
has no events behind it. -/
def Proper (s : SqliteStore) : Event → Prop
  | .call _ (.createRun value) => startsEmpty value
  | .call _ op => op.Brings (Timely s.memory)
  | _ => True

/-- The process goes on, and its store is not cleared. -/
def Onward (s : SqliteStore) (e : Event) : Prop := Proper s e ∧ e.within fun _ => true

/-- The invariant of the logs. -/
structure Booked (s : SqliteStore) : Prop where
  orderly : s.Orderly
  dated : s.Holds AllDated
  behind : Behind s.checkpoint s.memory

theorem Proper.orderly {s : SqliteStore} {e : Event} (h : Proper s e) : e.orderly := by
  cases e with
  | call disk op =>
    cases op with
    | createRun value => exact h
    | _ => rfl
  | _ => rfl

theorem Proper.brings {s : SqliteStore} {disk : Bool} {op : Op} (h : Proper s (.call disk op)) :
    op.Brings (Timely s.memory) := by
  cases op with
  | createRun value => trivial
  | _ => exact h

theorem allDated_empty : AllDated .empty := fun r hr => by cases hr

theorem booked_init : Booked .init where
  orderly := orderly_init
  dated := ⟨allDated_empty, by
    show AllDated (restore .empty)
    rw [restore_eq inv_empty]
    exact allDated_empty⟩
  behind r hr := by cases hr

theorem Booked.step (o : SetOrder) {s : SqliteStore} (hs : Booked s) {e : Event} (he : Proper s e) :
    Booked (s.step o e) := by
  have hinv := hs.orderly.memory.inv
  refine ⟨orderly_step o hs.orderly he.orderly, ?_, behind_step o hinv hs.behind e⟩
  refine hs.dated.step hinv allDated_empty dated_restore (fun disk op h hreset => ?_) (fun runId => ?_)
    fun endpointId => ?_
  · subst h
    exact dated_method o he.brings hreset hinv hs.dated.memory
  · exact allDated_of_eq (s := s.memory) (fun _ h => h) rfl (Nat.le_refl _) hs.dated.memory
  · exact allDated_of_eq (s := s.memory) (fun _ h => h) rfl (Nat.le_refl _) hs.dated.memory

theorem booked_run {o : SetOrder} {es : List Event} {s : SqliteStore}
    (h : Run (fun s e => some (SqliteStore.step o s e)) Proper .init es s) : Booked s := by
  refine h.invariant (I := Booked) (fun s e u hs he hu => ?_) booked_init
  cases hu
  exact hs.step o he

theorem booked_run_on {o : SetOrder} {es : List Event} {s t : SqliteStore} (hs : Booked s)
    (h : Run (fun s e => some (SqliteStore.step o s e)) Onward s es t) (r : String) : Grows r s.memory t.memory := by
  induction h with
  | nil s => exact (logFrame_grows o r).refl _
  | cons he hu _ ih =>
    cases hu
    exact (logFrame_grows o r).trans _ _ _
      ((logFrame_grows o r).step hs.orderly.memory.inv he.2 fun _ _ _ _ _ => trivial) (ih (hs.step o he.1))

/-- A call to append an event under an id that the log has finds it there or is refused. -/
theorem step_repeated (o : SetOrder) {s : SqliteStore} (hs : Booked s) {r : String} (hr : s.memory.runs.has r)
    {given event : Fields} (he : event ∈ logOf s.memory r) (hid : given.get "event_id" = event.get "event_id")
    (disk : Bool) :
    (s.step o (.call disk (.appendEvent r (.dict given)))).memory = s.memory := by
  have hinv := hs.orderly.memory.inv
  have hdated := hs.dated.memory r hr
  have hsame : (recordEvent o r (.dict given) s.memory).2 = s.memory := by
    rcases recordEvent_cases o r (.dict given) hinv with ⟨_, -, h⟩ | ⟨_, -, h⟩ | ⟨fresh, t, hp, -, -⟩
    · rw [h]
    · rw [h]
    · obtain ⟨⟨fields, hfields, hsame⟩, -, hcases⟩ := prepareEvent_fresh hp
      cases hfields
      obtain ⟨hname, -⟩ := hdated.named event he
      rw [← hsame, hid, hname] at hcases
      obtain h | h | ⟨id, h, -, hfree⟩ := hcases
      · cases h
      · cases h
      · cases h
        exact absurd (List.mem_map_of_mem he) (not_mem_of_indexOf hinv hfree)
  show (durableMutation (Op.method o (.appendEvent r (.dict given))) disk s).2.memory = s.memory
  rcases durableMutation_cases (Op.method o (.appendEvent r (.dict given))) disk hinv with
    ⟨-, h | ⟨h, -⟩⟩ | ⟨h, -⟩
  · exact h
  · rw [h, Op.method, LogFrame.void_snd]
    exact hsame
  · rw [h, Op.method, LogFrame.void_snd]
    exact hsame

/-- The log of a run: numbered from one on to the number that the run shows, each event under an id of its own,
and the index has under an id what the log has. -/
structure Accounted (m : Memory) (r : String) : Prop where
  numbered : Numbered (logOf m r)
  last : ((m.runs.get r).getD []).get "snapshot_seq" = some (.int (logOf m r).length)
  nodup : ((logOf m r).map eventId).Nodup
  indexed : ∀ id event, (indexOf m r).get id = some event ↔
    event ∈ logOf m r ∧ event.get "event_id" = some (.str id)

/-- In every state of every history each log is accounted for, and so is what a restart restores of it, which is a
first part of it; an event under an id that the log has changes nothing; and the log is never anything but
continued while the process goes on. -/
theorem log_accounted {o : SetOrder} {es : List Event} {s : SqliteStore}
    (h : Run (fun s e => some (SqliteStore.step o s e)) Proper .init es s) {r : String} (hr : s.memory.runs.has r) :
    Accounted s.memory r ∧
    (∀ event ∈ logOf s.memory r, ∀ given : Fields, given.get "event_id" = event.get "event_id" → ∀ disk,
      (s.step o (.call disk (.appendEvent r (.dict given)))).memory = s.memory) ∧
    (∀ es' t, Run (fun s e => some (SqliteStore.step o s e)) Onward s es' t →
      t.memory.runs.has r ∧ logOf s.memory r <+: logOf t.memory r) ∧
    ((s.step o .reopen).memory.runs.has r → Accounted (s.step o .reopen).memory r ∧
      ∃ early, early <+: logOf s.memory r ∧
        early.mapM Value.encodeFields = some (logOf (s.step o .reopen).memory r)) := by
  have hbooked := booked_run h
  have haccounted : ∀ {s : SqliteStore}, Booked s → s.memory.runs.has r → Accounted s.memory r := fun hs hr => by
    obtain ⟨-, -, hnumbered, hlast⟩ := hs.orderly.memory.runs r hr
    have hdated := hs.dated.memory r hr
    refine ⟨hnumbered, hlast, hdated.nodup, fun id event => ?_⟩
    rw [get_indexOf_iff hs.orderly.memory.inv hdated]
    refine and_congr_right fun he => ?_
    rw [(hdated.named event he).1]
    simp
  refine ⟨haccounted hbooked hr, fun event he given hid disk => step_repeated o hbooked hr he hid disk,
    fun es' t hrun => booked_run_on hbooked hrun r hr, fun hback => ⟨haccounted (hbooked.step o trivial) hback, ?_⟩⟩
  exact (hbooked.behind r hback).2

namespace Written

/-- A run with an event, one that brings its id, and one that the disk does not take. -/
def history : List Event :=
  [.call true (.createRun (.dict [("run_id", .str "r")])), .call true (.appendEvent "r" (.dict [])),
    .call true (.appendEvent "r" (.dict [("event_id", .str "mine")])), .call false (.appendEvent "r" (.dict []))]

def state : SqliteStore := history.foldl (SqliteStore.step inOrder) .init

theorem timely (m : Memory) : Timely m (.dict [("event_id", .str "mine")]) := by
  rintro id hid ⟨n, -, rfl⟩
  have hlist := congrArg String.toList (Value.str.inj (Option.some.inj hid))
  rw [toList_formatId] at hlist
  exact absurd (List.cons.inj hlist).1 (by decide)

theorem anonymous (m : Memory) : Timely m (.dict []) := fun _ h => by cases h

theorem reached : Run (fun s e => some (SqliteStore.step inOrder s e)) Proper .init history state :=
  .cons rfl rfl (.cons (anonymous _) rfl (.cons (timely _) rfl (.cons (anonymous _) rfl (.nil _))))

end Written

/-- The two events that the disk took are accounted for, also after a restart. -/
theorem two_events_accounted :
    (logOf Written.state.memory "r").map eventId = [formatId "evt" 1, "mine"] ∧ Accounted Written.state.memory "r" ∧
      Accounted (Written.state.step inOrder .reopen).memory "r" := by
  obtain ⟨hnow, -, -, hlater⟩ := log_accounted Written.reached (r := "r") (by decide +kernel)
  exact ⟨by decide +kernel, hnow, (hlater (by decide +kernel)).1⟩

end AutomlApi.Chronicle
