import AutomlApi.Pages.Windows

/-! Following the cursors of a run's events and of its outputs. The pages of events are
exact in every history. A cursor of outputs names the number of the last one, and not its
id, so the pages of outputs are exact as long as no two outputs come under one number. -/

namespace AutomlApi.Pages

open Paging (Follows after)
open Runs (Run)
open Store (Fields Value Fault Memory SetOrder SqliteStore Shelf Sequenced Numbered logOf outputsOf)
open Streams (seqOf allowed typeOf)

/-- The states in which a reader's requests are answered: the first one at the end of a
history of recording calls, and the process goes on between them. -/
structure Read (o : SetOrder) (tenantId runId : String) (new : Memory → Fields → Prop) (states : ℕ → SqliteStore) :
    Prop where
  reached : ∃ es, Run (fun s e => some (SqliteStore.step o s e)) (Records runId new) .init es (states 0)
  goesOn : ∀ i, ∃ es, Run (fun s e => some (SqliteStore.step o s e)) (GoesOn runId new) (states i) es (states (i + 1))
  owned : ∃ run, (states 0).memory.runs.get runId = some run ∧ owns tenantId run

/-! ### Pages of events -/

section

variable {runId : String} {m : Memory}

theorem Plain.hashable {event : Fields} (h : Plain event) : Store.hashable (typeOf event) := by
  obtain ⟨type, htype, -⟩ := h
  rw [typeOf, htype]
  rfl

theorem Plain.legacyFailure_eq {event : Fields} (h : Plain event) : Streams.legacyFailure event = .ok false := by
  obtain ⟨type, htype, hfailed⟩ := h
  unfold Streams.legacyFailure
  split
  · rename_i hequal
    rw [typeOf, htype] at hequal
    obtain ⟨payload, hpayload, hretriable⟩ := hfailed (by simpa [Value.equal] using hequal)
    rw [hpayload, Option.getD_some]
    dsimp only
    rw [hretriable]
    rfl
  · rfl

theorem getEvents_filter (h : Sequenced runId m) (hclear : Clear runId m) {n : ℤ} (hn : 0 ≤ n)
    (types : Option (List String)) : Streams.getEvents runId n none types m
      = .ok (((logOf m runId).filter fun event => n < seqOf event).filter (allowed types)) := by
  obtain ⟨log, hlog⟩ := Option.isSome_iff_exists.mp (h.inv.events runId h.run)
  have hof : logOf m runId = log := by rw [logOf, hlog]; rfl
  have hhashable : ((log.filter fun event => n < seqOf event).any fun event => !Store.hashable (typeOf event)) = false := by
    rw [List.any_eq_false]
    intro event hmem
    have hplain := hclear.plain event (hof ▸ List.mem_of_mem_filter hmem)
    simp [hplain.hashable]
  rw [Streams.getEvents, if_neg (not_lt.mpr hn), if_neg (by simp), if_neg (by simpa using h.run), hlog]
  simp only [hhashable, Bool.and_false, Bool.false_eq_true, if_false, hof]

/-- The events of a run are shown as they are. -/
theorem publicRunEvents_eq (h : Sequenced runId m) (hclear : Clear runId m) {n : ℤ} (hn : 0 ≤ n)
    (types : Option (List String)) : publicRunEvents runId n types m
      = .ok (((logOf m runId).filter fun event => n < seqOf event).filter (allowed types)) := by
  have hlegacy : ∀ events : List Fields, (∀ event ∈ events, Plain event) →
      ∃ flags, events.mapM Streams.legacyFailure = .ok flags ∧ flags.any id = false := fun events hplain => by
    induction events with
    | nil => exact ⟨[], rfl, rfl⟩
    | cons event events ih =>
      obtain ⟨flags, hflags, hany⟩ := ih fun e he => hplain e (List.mem_cons_of_mem _ he)
      refine ⟨false :: flags, ?_, by simpa using hany⟩
      rw [List.mapM_cons, (hplain event List.mem_cons_self).legacyFailure_eq, hflags]
      rfl
  obtain ⟨flags, hflags, hany⟩ := hlegacy (((logOf m runId).filter fun event => n < seqOf event).filter (allowed types))
    fun event hmem => hclear.plain event (List.mem_of_mem_filter (List.mem_of_mem_filter hmem))
  rw [publicRunEvents, getEvents_filter h hclear hn]
  show (List.mapM Streams.legacyFailure _ >>= _) = _
  rw [hflags]
  show (if flags.any id then _ else _) = _
  rw [hany]
  rfl

theorem seqOf_le_length {log log' : List Fields} (h : log <+: log') (hn : Numbered log') {event : Fields}
    (hmem : event ∈ log) : seqOf event ≤ log.length := by
  obtain ⟨rest, rfl⟩ := h
  obtain ⟨i, hi, rfl⟩ := List.getElem_of_mem hmem
  have hget : (log ++ rest)[i]? = some log[i] := by
    rw [List.getElem?_append_left hi, List.getElem?_eq_getElem hi]
  rw [Streams.seqOf_numbered hn hget]
  omega

/-- What is numbered up to the length of a log are the events of that log, however it has grown. -/
theorem filter_grown {log log' : List Fields} (h : log <+: log') (hn : Numbered log') (f : Fields → Bool) :
    (log'.filter f).filter (fun event => seqOf event ≤ log.length) = log.filter f := by
  have hleft := fun event => @seqOf_le_length log log' h hn event
  obtain ⟨rest, rfl⟩ := h
  have hright : ∀ event ∈ rest, ¬ seqOf event ≤ log.length := fun event hmem => by
    obtain ⟨i, hi, rfl⟩ := List.getElem_of_mem hmem
    have hget : (log ++ rest)[log.length + i]? = some rest[i] := by
      rw [List.getElem?_append_right (by omega), Nat.add_sub_cancel_left, List.getElem?_eq_getElem hi]
    rw [Streams.seqOf_numbered hn hget]
    omega
  have hkept : (log.filter f).filter (fun event => seqOf event ≤ log.length) = log.filter f :=
    List.filter_eq_self.mpr fun event hmem => by simpa using hleft event (List.mem_of_mem_filter hmem)
  have hdropped : (rest.filter f).filter (fun event => seqOf event ≤ log.length) = [] :=
    List.filter_eq_nil_iff.mpr fun event hmem => by simpa using hright event (List.mem_of_mem_filter hmem)
  rw [List.filter_append, List.filter_append, hkept, hdropped, List.append_nil]

theorem sorted_log {log : List Fields} (hn : Numbered log) : log.Pairwise fun a b => seqOf a < seqOf b := by
  rw [List.pairwise_iff_getElem]
  intro i j hi hj hij
  rw [Streams.seqOf_numbered hn (List.getElem?_eq_getElem hi), Streams.seqOf_numbered hn (List.getElem?_eq_getElem hj)]
  omega

/-- The answer to a request for events with readable marks. -/
theorem readRunEvents_eq {tenantId : String} {run : Fields} (h : Sequenced runId m) (hclear : Clear runId m)
    (hget : m.runs.get runId = some run) (howner : owns tenantId run) {asked : EventsAsked} {marks : SeqMarks}
    {types : Option (List String)} (hmarks : eventMarks tenantId runId asked (publicRun run) 1 = .ok (marks, types))
    (hposition : 0 ≤ marks.position) :
    let candidates := (((logOf m runId).filter fun event => marks.position < seqOf event).filter (allowed types)).filter
      fun event => seqOf event ≤ marks.highWatermark
    let page := cut marks seqOf (·.cursor "events" tenantId runId [("types", Listing.statusValue types)]) candidates
    readRunEvents tenantId runId asked m = .ok ⟨page.1, page.2, marks.highWatermark, 1⟩ := by
  have hlow : ¬ marks.position < max 0 (1 - 1) := by simpa using hposition
  simp only [readRunEvents, hget, owned, howner, if_true]
  show (intAt (publicRun run) "retained_from_seq" >>= _) = _
  rw [intAt_publicRun (.inr rfl) (hclear.retained run hget)]
  show (eventMarks tenantId runId asked (publicRun run) 1 >>= _) = _
  rw [hmarks]
  show (if marks.position < max 0 (1 - 1) then _ else _) = _
  rw [if_neg hlow, publicRunEvents_eq h hclear hposition]
  rfl

end

def askEvents (tenantId runId : String) (asked : EventsAsked) (m : Memory) :
    Except Refusal (List Fields × Option EventsAsked) :=
  (readRunEvents tenantId runId asked m).map EventPage.turn

/-- A reader of events gets those of the window of his first page, in their order and each once. -/
def EventsExact (tenantId runId : String) (states : ℕ → SqliteStore) : Prop :=
  ∀ (afterSeq limit : Option ℤ) (types : Option (List String)), (∀ n ∈ afterSeq, 0 ≤ n) → (∀ n ∈ limit, 1 ≤ n) →
    ∃ page items, readRunEvents tenantId runId ⟨afterSeq, none, limit, types⟩ (states 0).memory = .ok page ∧
      page.highWatermark = snapshotSeq (states 0).memory runId ∧
      Follows (askEvents tenantId runId) ⟨afterSeq, none, limit, types⟩ (fun i => (states i).memory) items ∧
      (items.Pairwise fun a b => seqOf a < seqOf b) ∧
      items = (logOf (states 0).memory runId).filter fun event =>
        (afterSeq.getD 0 < seqOf event ∧ seqOf event ≤ page.highWatermark) && allowed types event

namespace Read

variable {o : SetOrder} {tenantId runId : String} {new : Memory → Fields → Prop} {states : ℕ → SqliteStore}

theorem keeps (h : Read o tenantId runId new states) (i : ℕ) :
    (states i).Orderly ∧ KeepsClear runId (states 0).memory (states i).memory := by
  induction i with
  | zero =>
    obtain ⟨es, hrun⟩ := h.reached
    exact ⟨(clear_run hrun).1, keepsClear_refl runId _⟩
  | succ i ih =>
    obtain ⟨es, hrun⟩ := h.goesOn i
    obtain ⟨horderly, hkeeps⟩ := keepsClear_run_on ih.1 hrun
    exact ⟨horderly, keepsClear_trans runId _ _ _ ih.2 hkeeps⟩

/-- What each of the requests finds. -/
theorem found (h : Read o tenantId runId new states) (i : ℕ) :
    Sequenced runId (states i).memory ∧ Clear runId (states i).memory ∧
      Grown runId (states 0).memory (states i).memory ∧
      ∃ run, (states i).memory.runs.get runId = some run ∧ owns tenantId run := by
  obtain ⟨es, hrun⟩ := h.reached
  obtain ⟨run, hget, howner⟩ := h.owned
  obtain ⟨horderly, hkeeps⟩ := h.keeps i
  obtain ⟨hclear, hkept⟩ := hkeeps (clear_run hrun).2.memory
  obtain ⟨hhas, hgrown⟩ := hkept (Dict.has_of_get hget)
  obtain ⟨run', hget', heq⟩ := hgrown.entry run hget
  exact ⟨horderly.memory.runs runId hhas, hclear, hgrown, run', hget', (owns_of_get_eq heq).trans howner⟩

theorem snapshot_eq (h : Read o tenantId runId new states) :
    snapshotSeq (states 0).memory runId = (logOf (states 0).memory runId).length := by
  rw [snapshotSeq, (h.found 0).1.snapshot]

/-- The pages of events are exact. -/
theorem events_exact (h : Read o tenantId runId new states) : EventsExact tenantId runId states :=
  fun afterSeq limit types hafter hlimit => by
  set log := logOf (states 0).memory runId with hlog
  set marks : ℤ → SeqMarks := fun k => ⟨k, log.length, limit.getD 50⟩ with hmarks
  have hn : 1 ≤ limit.getD 50 := by
    cases limit with
    | none => decide
    | some n => exact hlimit n rfl
  have hstart : 0 ≤ afterSeq.getD 0 := by
    cases afterSeq with
    | none => decide
    | some n => exact hafter n rfl
  -- each page is cut from the events of the first log after its position
  have hanswer : ∀ i asked k, 0 ≤ k → (∀ run, (states i).memory.runs.get runId = some run →
      eventMarks tenantId runId asked (publicRun run) 1 = .ok (marks k, types)) →
      readRunEvents tenantId runId asked (states i).memory =
        .ok ⟨(cut (marks k) seqOf (·.cursor "events" tenantId runId [("types", Listing.statusValue types)])
            (after seqOf (log.filter (allowed types)) k)).1,
          (cut (marks k) seqOf (·.cursor "events" tenantId runId [("types", Listing.statusValue types)])
            (after seqOf (log.filter (allowed types)) k)).2, log.length, 1⟩ := fun i asked k hk hasked => by
    obtain ⟨hsequenced, hclear, hgrown, run, hget, howner⟩ := h.found i
    have hboth : ((logOf (states i).memory runId).filter fun event => k < seqOf event).filter (allowed types)
        = (logOf (states i).memory runId).filter fun event => allowed types event && decide (k < seqOf event) :=
      List.filter_filter ..
    have hwindow : (((logOf (states i).memory runId).filter fun event => k < seqOf event).filter (allowed types)).filter
        (fun event => seqOf event ≤ log.length) = after seqOf (log.filter (allowed types)) k := by
      rw [hboth, filter_grown hgrown.log hsequenced.numbered, after, List.filter_filter]
      exact List.filter_congr fun event _ => Bool.and_comm _ _
    rw [readRunEvents_eq hsequenced hclear hget howner (hasked run hget) hk]
    simp only [hmarks, hwindow]
  have hfirst : ∀ run, (states 0).memory.runs.get runId = some run →
      eventMarks tenantId runId ⟨afterSeq, none, limit, types⟩ (publicRun run) 1 = .ok (marks (afterSeq.getD 0), types) :=
    fun run hget => by
      have hsnapshot := (h.found 0).1.snapshot
      rw [hget, Option.getD_some] at hsnapshot
      show (intAt (publicRun run) "snapshot_seq" >>= _) = _
      rw [intAt_publicRun (.inl rfl) hsnapshot]
      rfl
  obtain ⟨items, hfollows, hitems⟩ := @Paging.follows_window Memory EventsAsked Refusal Fields Fields ℤ
    (askEvents tenantId runId) (fun i => (states i).memory) _ seqOf (log.filter (allowed types))
    ((sorted_log (h.found 0).1.numbered).filter _) (limit.getD 50).toNat (by omega) id
    (fun i asked k => 0 ≤ k ∧ ∀ run, (states i).memory.runs.get runId = some run →
      eventMarks tenantId runId asked (publicRun run) 1 = .ok (marks k, types))
    (fun i asked k ⟨hk, hasked⟩ => by
      refine ⟨_, by rw [askEvents, hanswer i asked k hk hasked]; rfl, @cut_cuts EventsAsked (marks k) hn seqOf
        (·.cursor "events" tenantId runId [("types", Listing.statusValue types)])
        (fun cursor => ⟨none, some cursor, none, none⟩) _ _ fun event hmem => ?_⟩
      have hlater : k < seqOf event := by simpa using (List.mem_filter.mp hmem).2
      exact ⟨by omega, fun run _ => eventMarks_next (by show 0 ≤ seqOf event; omega) (Int.natCast_nonneg _) hn ..⟩)
    ⟨afterSeq, none, limit, types⟩ (afterSeq.getD 0) ⟨hstart, hfirst⟩
  refine ⟨_, items, hanswer 0 _ _ hstart hfirst, h.snapshot_eq.symm, hfollows, ?_, ?_⟩
  all_goals rw [List.map_id] at hitems
  · rw [hitems]
    exact ((sorted_log (h.found 0).1.numbered).filter _).filter _
  · rw [hitems, after, List.filter_filter]
    refine List.filter_congr fun event hmem => ?_
    rw [decide_eq_decide.mpr (and_iff_left (seqOf_le_length List.prefix_rfl (h.found 0).1.numbered hmem)).symm]

end Read

/-! ### Pages of outputs -/

section

variable {runId : String} {m : Memory}

theorem createdSeqOf_publicItem (output : Fields) : createdSeqOf (publicItem output) = createdSeqOf output := by
  rw [createdSeqOf, publicItem, Dict.get_only, if_pos (by decide), createdSeqOf]

theorem outputIdOf_publicItem (output : Fields) : outputIdOf (publicItem output) = outputIdOf output := by
  rw [outputIdOf, publicItem, Dict.get_only, if_pos (by decide), outputIdOf]

theorem mem_shownOutputs (h : Apart runId m) {item : Fields} :
    item ∈ shownOutputs runId m ↔ ∃ id output, (outputsOf m runId).get id = some output ∧ item = publicItem output := by
  rw [shownOutputs, Paging.mem_sortBy, List.map_map, List.mem_map]
  refine ⟨fun ⟨⟨id, output⟩, hentry, heq⟩ => ⟨id, output, Dict.get_of_mem h.nodup hentry, heq.symm⟩,
    fun ⟨id, output, hget, heq⟩ => ⟨(id, output), Dict.mem_of_get hget, heq.symm⟩⟩

theorem apart_of_mem (h : Apart runId m) {a b : Fields} (ha : a ∈ shownOutputs runId m) (hb : b ∈ shownOutputs runId m)
    (heq : createdSeqOf a = createdSeqOf b) : a = b := by
  obtain ⟨id, output, hget, rfl⟩ := (mem_shownOutputs h).mp ha
  obtain ⟨id', output', hget', rfl⟩ := (mem_shownOutputs h).mp hb
  rw [createdSeqOf_publicItem, createdSeqOf_publicItem] at heq
  cases h.apart id id' output output' hget hget' heq
  rw [hget] at hget'
  cases hget'
  rfl

theorem sorted_shownOutputs (h : Apart runId m) :
    (shownOutputs runId m).Pairwise fun a b => outputKey a < outputKey b := by
  -- the ids that end the keys are all different
  have hids : ((((outputsOf m runId).map Prod.snd).map publicItem).map outputKey).map (fun k => (ofLex k).2)
      = (outputsOf m runId).map Prod.fst := by
    simp only [List.map_map]
    refine List.map_congr_left fun entry hentry => ?_
    show outputIdOf (publicItem entry.2) = entry.1
    rw [outputIdOf_publicItem, outputIdOf, h.named entry.1 entry.2 (Dict.get_of_mem h.nodup hentry), Option.bind_some,
      Value.nonEmptyString?]
    split
    · exact (‹entry.1 = ""›).symm
    · rfl
  exact Paging.sorted_sortBy (List.Nodup.of_map (fun k => (ofLex k).2) (hids ▸ h.nodup))

/-- The outputs are in the order of their numbers. -/
theorem numbers_shownOutputs (h : Apart runId m) :
    (shownOutputs runId m).Pairwise fun a b => createdSeqOf a < createdSeqOf b := by
  refine (sorted_shownOutputs h).imp_of_mem fun {a b} ha hb hlt => ?_
  rcases Prod.Lex.toLex_lt_toLex.mp hlt with hlt | ⟨heq, hlt⟩
  · exact hlt
  · cases apart_of_mem h ha hb heq
    exact absurd hlt (lt_irrefl _)

/-- The answer to a request for outputs with readable marks. -/
theorem listOutputs_eq {tenantId : String} {run : Fields} (hget : m.runs.get runId = some run)
    (howner : owns tenantId run) {asked : OutputsAsked} (haccepted : asked.filter.Accepted) {marks : SeqMarks}
    {filter : OutputFilter} (hmarks : outputMarks tenantId runId asked (publicRun run) = .ok (marks, filter)) :
    let candidates := (shownOutputs runId m).filter fun output =>
      (marks.position < createdSeqOf output ∧ createdSeqOf output ≤ marks.highWatermark) && filter.keeps output
    let page := cut marks createdSeqOf (·.cursor "outputs" tenantId runId filter.fields) candidates
    listOutputs tenantId runId asked m = .ok ⟨page.1, page.2, page.2.isSome, marks.highWatermark⟩ := by
  simp only [listOutputs, hget, owned, howner, if_true]
  show (validateFilter asked.filter.types outputTypes "Output type" >>= _) = _
  rw [haccepted.types]
  show (validateFilter asked.filter.phases runPhases "Run phase" >>= _) = _
  rw [haccepted.phases]
  show (validateFilter (asked.filter.state.map fun state => [state]) outputStates "Output state" >>= _) = _
  rw [haccepted.state]
  show (outputMarks tenantId runId asked (publicRun run) >>= _) = _
  rw [hmarks]
  rfl

/-- Outputs that came later than a log are above its length. -/
theorem filter_shownOutputs {s t : Memory} (hs : Apart runId s) (ht : Apart runId t) (hgrown : GrownApart runId s t)
    (f : Fields → Bool) :
    (shownOutputs runId t).filter (fun output => (createdSeqOf output ≤ (logOf s runId).length) && f output)
      = (shownOutputs runId s).filter (fun output => (createdSeqOf output ≤ (logOf s runId).length) && f output) := by
  refine Paging.eq_of_sorted ((sorted_shownOutputs ht).filter _) ((sorted_shownOutputs hs).filter _) fun item => ?_
  rw [List.mem_filter, List.mem_filter, mem_shownOutputs hs, mem_shownOutputs ht]
  refine and_congr_left fun hitem => ⟨fun ⟨id, output, hget, heq⟩ => ?_, fun ⟨id, output, hget, heq⟩ =>
    ⟨id, output, hgrown.stays id output hget, heq⟩⟩
  subst heq
  refine ⟨id, output, (hgrown.later id output hget).resolve_right fun hlater => ?_, rfl⟩
  simp only [createdSeqOf_publicItem, Bool.and_eq_true, decide_eq_true_eq] at hitem
  omega

end

def askOutputs (tenantId runId : String) (asked : OutputsAsked) (m : Memory) :
    Except Refusal (List Fields × Option OutputsAsked) :=
  (listOutputs tenantId runId asked m).map outputsTurn

/-- A reader of outputs gets those of the window of his first page, in their order and each once. -/
def OutputsExact (tenantId runId : String) (states : ℕ → SqliteStore) : Prop :=
  ∀ (limit : Option ℤ) (filter : OutputFilter), filter.Accepted → (∀ n ∈ limit, 1 ≤ n) →
    ∃ page items, listOutputs tenantId runId ⟨none, limit, filter⟩ (states 0).memory = .ok page ∧
      page.highWatermark = snapshotSeq (states 0).memory runId ∧
      Follows (askOutputs tenantId runId) ⟨none, limit, filter⟩ (fun i => (states i).memory) items ∧
      (items.Pairwise fun a b => outputKey a < outputKey b) ∧
      items = (shownOutputs runId (states 0).memory).filter fun output =>
        (0 < createdSeqOf output ∧ createdSeqOf output ≤ page.highWatermark) && filter.keeps output

namespace Read

variable {o : SetOrder} {tenantId runId : String} {states : ℕ → SqliteStore}

theorem keepsApart (h : Read o tenantId runId (OwnNumber runId) states) (i : ℕ) :
    KeepsApart runId (states 0).memory (states i).memory := by
  induction i with
  | zero => exact keepsApart_refl runId _
  | succ i ih =>
    obtain ⟨es, hrun⟩ := h.goesOn i
    exact keepsApart_trans runId _ _ _ ih (keepsApart_run_on (h.keeps i).1 hrun).2

theorem foundApart (h : Read o tenantId runId (OwnNumber runId) states) (i : ℕ) :
    Apart runId (states i).memory ∧ GrownApart runId (states 0).memory (states i).memory := by
  obtain ⟨es, hrun⟩ := h.reached
  obtain ⟨hapart, hkept⟩ := h.keepsApart i (apart_run hrun).2.memory
  exact ⟨hapart, (hkept (h.found 0).1.run).2⟩

/-- Where every output comes under a number of its own, the pages of outputs are exact. -/
theorem outputs_exact (h : Read o tenantId runId (OwnNumber runId) states) : OutputsExact tenantId runId states :=
  fun limit filter haccepted hlimit => by
  set log := logOf (states 0).memory runId with hlog
  set marks : ℤ → SeqMarks := fun k => ⟨k, log.length, limit.getD 50⟩ with hmarks
  set window := (shownOutputs runId (states 0).memory).filter fun output =>
    (createdSeqOf output ≤ log.length) && filter.keeps output with hwindow
  have hn : 1 ≤ limit.getD 50 := by
    cases limit with
    | none => decide
    | some n => exact hlimit n rfl
  -- each page is cut from the outputs of the first window after its position
  have hanswer : ∀ i asked k, asked.filter.Accepted → (∀ run, (states i).memory.runs.get runId = some run →
      outputMarks tenantId runId asked (publicRun run) = .ok (marks k, filter)) →
      let page := cut (marks k) createdSeqOf (·.cursor "outputs" tenantId runId filter.fields)
        (after createdSeqOf window k)
      listOutputs tenantId runId asked (states i).memory = .ok ⟨page.1, page.2, page.2.isSome, log.length⟩ :=
    fun i asked k haccepted hasked => by
      obtain ⟨-, -, -, run, hget, howner⟩ := h.found i
      obtain ⟨hapart, hgrown⟩ := h.foundApart i
      have hleft : (shownOutputs runId (states i).memory).filter (fun output =>
          (k < createdSeqOf output ∧ createdSeqOf output ≤ log.length) && filter.keeps output)
          = after createdSeqOf window k := by
        rw [after, hwindow, ← filter_shownOutputs (h.foundApart 0).1 hapart hgrown, List.filter_filter]
        refine List.filter_congr fun output _ => ?_
        rw [Bool.decide_and, Bool.and_assoc]
      rw [listOutputs_eq hget howner haccepted (hasked run hget)]
      simp only [hmarks, hleft]
  have hfirst : ∀ run, (states 0).memory.runs.get runId = some run →
      outputMarks tenantId runId ⟨none, limit, filter⟩ (publicRun run) = .ok (marks 0, filter) := fun run hget => by
    have hsnapshot := (h.found 0).1.snapshot
    rw [hget, Option.getD_some] at hsnapshot
    show (intAt (publicRun run) "snapshot_seq" >>= _) = _
    rw [intAt_publicRun (.inl rfl) hsnapshot]
    rfl
  obtain ⟨items, hfollows, hitems⟩ := @Paging.follows_window Memory OutputsAsked Refusal Fields Fields ℤ
    (askOutputs tenantId runId) (fun i => (states i).memory) _ createdSeqOf window
    ((numbers_shownOutputs (h.foundApart 0).1).filter _) (limit.getD 50).toNat (by omega) id
    (fun i asked k => 0 ≤ k ∧ asked.filter.Accepted ∧ ∀ run, (states i).memory.runs.get runId = some run →
      outputMarks tenantId runId asked (publicRun run) = .ok (marks k, filter))
    (fun i asked k ⟨hk, hfilter, hasked⟩ => by
      refine ⟨_, by rw [askOutputs, hanswer i asked k hfilter hasked]; rfl, @cut_cuts OutputsAsked (marks k) hn
        createdSeqOf (·.cursor "outputs" tenantId runId filter.fields)
        (fun cursor => ⟨some cursor, none, ⟨none, none, none⟩⟩) _ _ fun output hmem => ?_⟩
      have hlater : k < createdSeqOf output := by simpa using (List.mem_filter.mp hmem).2
      exact ⟨by omega, ⟨rfl, rfl, rfl⟩, fun run _ =>
        outputMarks_next (by show 0 ≤ createdSeqOf output; omega) (Int.natCast_nonneg _) hn ..⟩)
    ⟨none, limit, filter⟩ 0 ⟨Int.le_refl 0, haccepted, hfirst⟩
  refine ⟨_, items, hanswer 0 _ _ haccepted hfirst, h.snapshot_eq.symm, hfollows, ?_, ?_⟩
  all_goals rw [List.map_id] at hitems
  · rw [hitems]
    exact ((sorted_shownOutputs (h.foundApart 0).1).filter _).filter _
  · rw [hitems, after, hwindow, List.filter_filter]
    refine List.filter_congr fun output _ => ?_
    rw [Bool.decide_and, Bool.and_assoc]

end Read

/-- The pages of events are exact in every history, and the pages of outputs in every
history in which each output is created under a number of its own. -/
theorem run_pages_exact (o : SetOrder) (tenantId runId : String) (states : ℕ → SqliteStore) :
    (∀ new, Read o tenantId runId new states → EventsExact tenantId runId states) ∧
      (Read o tenantId runId (OwnNumber runId) states → OutputsExact tenantId runId states) :=
  ⟨fun _ h => h.events_exact, fun h => h.outputs_exact⟩

namespace Committed

def runId : String := "run_000000000001"

def create : Store.Event := .call true (.createRun (.dict
  [("run_id", .str runId), ("tenant_id", .str "tenant"), ("retained_from_seq", .int 1),
    ("webhook_endpoint_ids", .list [])]))

def commit : Store.Event := .call true (.createOutput runId (.dict
  [("created_seq", .int 1), ("type", .str "TASK_SPEC"), ("phase", .str "PLAN"), ("state", .str "FINAL")]))

def append : Store.Event := .call true (.appendEvent runId (.dict
  [("type", .str "output.committed.v1"), ("payload", .dict [])]))

def store : SqliteStore := [create, commit, append].foldl (fun s e => s.step Store.inOrder e) .init

theorem read : Read Store.inOrder "tenant" runId (OwnNumber runId) fun _ => store where
  reached := by
    refine ⟨[create, commit, append], .cons (.inr (.inl ⟨fun _ => ⟨rfl, rfl⟩, nofun⟩)) rfl
      (.cons (.inr (.inr ⟨_, rfl, 1, rfl, ?_, ?_⟩)) rfl
      (.cons (.inr (.inl ⟨⟨"output.committed.v1", rfl, fun h => absurd h (by decide)⟩, fun _ _ _ => ⟨nofun, nofun⟩⟩)) rfl
        (.nil _)))⟩
    · decide +kernel
    · have hnone : outputsOf (SqliteStore.init.step Store.inOrder create).memory runId = [] :=
        List.length_eq_zero_iff.mp (by decide +kernel)
      rw [hnone]
      nofun
  goesOn i := ⟨[], .nil _⟩
  owned := by
    have hthere : (store.memory.runs.get runId).any (owns "tenant") = true := by decide +kernel
    obtain ⟨run, hget, howner⟩ := (Option.any_eq_true _ _).mp hthere
    exact ⟨run, hget, howner⟩

end Committed

/-- An output and then its event. -/
theorem committed_pages_exact : EventsExact "tenant" Committed.runId (fun _ => Committed.store) ∧
    OutputsExact "tenant" Committed.runId fun _ => Committed.store :=
  ⟨(run_pages_exact Store.inOrder "tenant" Committed.runId _).1 _ Committed.read,
    (run_pages_exact Store.inOrder "tenant" Committed.runId _).2 Committed.read⟩

/-! ### Outputs under one number -/

/-- The fields of an output that `_commit_output` creates for a run, as it has read it. -/
def committedOutput (run : Fields) (outputId outputType phase : String) (summary payload lineage : Fields)
    (createdAt : String) : Except Fault Fields := do
  let snapshotSeq ← Store.toInt ((run.get "snapshot_seq").getD .null)
  pure [("output_id", .str outputId), ("tenant_id", (run.get "tenant_id").getD .null), ("schema_version", .str "1.0"),
    ("run_id", (run.get "run_id").getD .null), ("run_revision", (run.get "run_revision").getD .null),
    ("created_seq", .int (snapshotSeq + 1)), ("phase", .str phase), ("state", .str "FINAL"),
    ("type", .str outputType), ("summary", .dict summary), ("payload", .dict payload), ("lineage", .dict lineage),
    ("artifact_refs", .list []), ("supersedes", .null), ("created_at", .str createdAt)]

namespace Crashed

open Committed (runId create append)

/-- The run as it is read before either of the outputs. -/
def run : Fields := [("run_id", .str runId), ("tenant_id", .str "tenant"), ("snapshot_seq", .int 0), ("run_revision", .int 1)]

def commit (outputId outputType : String) : Store.Event :=
  .call true (.createOutput runId (.dict
    ((committedOutput run outputId outputType "PLAN" [] [] [] "2026-01-01T00:00:00Z").toOption.getD [])))

/-- The service ends after the first output of PLAN, and before its event. Started again, it finds
that output and goes on with the second one. -/
def events : List Store.Event :=
  [create, commit "out_000000000001" "TASK_SPEC", .reopen, commit "out_000000000002" "SPLIT_MANIFEST", append]

def store : SqliteStore := events.foldl (fun s e => s.step Store.inOrder e) .init

def outputs : List Fields := ((outputsOf store.memory runId).map Prod.snd).map publicItem

def first : OutputsAsked := ⟨none, some 1, ⟨none, none, none⟩⟩

def second : OutputsAsked :=
  ⟨some (SeqMarks.cursor ⟨1, 1, 1⟩ "outputs" "tenant" runId (OutputFilter.fields ⟨none, none, none⟩)), none,
    ⟨none, none, none⟩⟩

theorem read : Read Store.inOrder "tenant" runId (fun _ _ => True) fun _ => store where
  reached := by
    refine ⟨events, .cons (.inr (.inl ⟨fun _ => ⟨rfl, rfl⟩, nofun⟩)) rfl (.cons (.inr (.inr ⟨_, rfl, trivial⟩)) rfl
      (.cons trivial rfl (.cons (.inr (.inr ⟨_, rfl, trivial⟩)) rfl (.cons (.inr (.inl ⟨?_, ?_⟩)) rfl (.nil _)))))⟩
    · exact ⟨"output.committed.v1", rfl, fun h => absurd h (by decide)⟩
    · exact fun _ _ _ => ⟨nofun, nofun⟩
  goesOn i := ⟨[], .nil _⟩
  owned := by
    have hthere : (store.memory.runs.get runId).any (owns "tenant") = true := by decide +kernel
    obtain ⟨run, hget, howner⟩ := (Option.any_eq_true _ _).mp hthere
    exact ⟨run, hget, howner⟩

theorem shown : shownOutputs runId store.memory = outputs :=
  Paging.sortBy_eq_self (by decide +kernel)

theorem tied : outputs.length = 2 ∧ ∀ output ∈ outputs, createdSeqOf output = 1 := by decide +kernel

/-- The first page has one of the two outputs, and the cursor of the next page passes over the other. -/
theorem follows : ∃ items, Follows (askOutputs "tenant" runId) first (fun _ => store.memory) items ∧ items.length = 1 := by
  obtain ⟨run, hget, howner⟩ := read.owned
  obtain ⟨hlength, hseq⟩ := tied
  have hsnapshot : run.get "snapshot_seq" = some (.int 1) := by
    have h := (read.found 0).1.snapshot
    rw [hget, Option.getD_some] at h
    rw [h]
    exact congrArg (fun n : ℕ => some (Value.int n)) (show (logOf store.memory runId).length = 1 by decide +kernel)
  have hfirst := listOutputs_eq hget howner (show first.filter.Accepted from ⟨rfl, rfl, rfl⟩)
    (show outputMarks "tenant" runId first (publicRun run) = .ok (⟨0, 1, 1⟩, ⟨none, none, none⟩) by
      show (intAt (publicRun run) "snapshot_seq" >>= _) = _
      rw [intAt_publicRun (.inl rfl) hsnapshot]
      rfl)
  have hsecond := listOutputs_eq hget howner (show second.filter.Accepted from ⟨rfl, rfl, rfl⟩)
    (outputMarks_next (by decide) (by decide) (by decide) "tenant" runId ⟨none, none, none⟩ (publicRun run))
  have hall : outputs.filter (fun output => (0 < createdSeqOf output ∧ createdSeqOf output ≤ 1) &&
      OutputFilter.keeps ⟨none, none, none⟩ output) = outputs :=
    List.filter_eq_self.mpr fun output hmem => by
      rw [hseq output hmem]
      rfl
  have hnone : outputs.filter (fun output => (1 < createdSeqOf output ∧ createdSeqOf output ≤ 1) &&
      OutputFilter.keeps ⟨none, none, none⟩ output) = [] :=
    List.filter_eq_nil_iff.mpr fun output hmem => by
      rw [hseq output hmem]
      exact Bool.false_ne_true
  obtain ⟨output, output', houtputs⟩ := List.length_eq_two.mp hlength
  simp only [shown, hall] at hfirst
  simp only [shown, hnone] at hsecond
  rw [houtputs] at hseq hfirst
  have hcut : cut ⟨0, 1, 1⟩ createdSeqOf (·.cursor "outputs" "tenant" runId (OutputFilter.fields ⟨none, none, none⟩))
      [output, output'] = ([output], some (SeqMarks.cursor ⟨1, 1, 1⟩ "outputs" "tenant" runId
        (OutputFilter.fields ⟨none, none, none⟩))) := by
    show ([output], some (SeqMarks.cursor ⟨createdSeqOf output, 1, 1⟩ _ _ _ _)) = _
    rw [hseq output List.mem_cons_self]
  simp only [hcut] at hfirst
  have hlast : Follows (askOutputs "tenant" runId) second (fun _ => store.memory) [] := by
    refine .last ?_
    rw [askOutputs, hsecond]
    rfl
  refine ⟨[output] ++ [], .next ?_ hlast, rfl⟩
  rw [askOutputs, hfirst]
  rfl

end Crashed

/-- The pages lose an output: two have come under one number, as the service ended between
an output and its event. -/
theorem output_lost : Read Store.inOrder "tenant" Committed.runId (fun _ _ => True) (fun _ => Crashed.store) ∧
    ¬ OutputsExact "tenant" Committed.runId fun _ => Crashed.store := by
  refine ⟨Crashed.read, fun h => ?_⟩
  obtain ⟨page, items, hpage, hmark, hfollows, -, hitems⟩ := h (some 1) ⟨none, none, none⟩ ⟨rfl, rfl, rfl⟩ (by decide)
  obtain ⟨items', hfollows', hlength⟩ := Crashed.follows
  obtain ⟨hboth, hseq⟩ := Crashed.tied
  have hwatermark : snapshotSeq Crashed.store.memory Committed.runId = 1 := by decide +kernel
  rw [hmark, hwatermark, Crashed.shown, List.filter_eq_self.mpr fun output hmem => by rw [hseq output hmem]; rfl] at hitems
  rw [← hfollows.unique hfollows', hitems, hboth] at hlength
  exact absurd hlength (by decide)

end AutomlApi.Pages
