import Mathlib.Data.Prod.Lex
import AutomlApi.Pages.Listings
import AutomlApi.Streams.Events

/-! The listings in the order of numbers: the events of a run, by their numbers, and its
outputs, by the number of the event that tells of each. A cursor names the last number
that was read and the last one of the run when the first page was. -/

namespace AutomlApi.Pages

open Paging (sortBy)
open Requests (APIProblem)
open Store (Fields Value Fault Memory Shelf)
open Streams (seqOf)

/-! ### Cursors -/

/-- `int(fields[name])`. -/
def intAt (fields : Fields) (name : String) : Except Refusal ℤ :=
  match fields.get name with
  | none => .error (.raised (.key name))
  | some value => (Store.toInt value).mapError .raised

/-- What a cursor carries, less its filters. -/
structure SeqMarks where
  position : ℤ
  highWatermark : ℤ
  limit : ℤ

def SeqMarks.cursor (marks : SeqMarks) (kind tenantId runId : String) (filters : Fields) : Fields :=
  [("kind", .str kind), ("tenant_id", .str tenantId), ("parent_id", .str runId), ("position", .int marks.position),
    ("high_watermark", .int marks.highWatermark), ("limit", .int marks.limit)] ++ filters

def readSeqMarks (cursor : Fields) : Except Refusal SeqMarks := do
  let position ← intOf cursor "position" (-1)
  let highWatermark ← intOf cursor "high_watermark" (-1)
  let limit ← intOf cursor "limit" 0
  if position < 0 ∨ highWatermark < 0 ∨ limit < 1 then
    .error (.problem (invalidCursor "Cursor payload is invalid."))
  else .ok ⟨position, highWatermark, limit⟩

/-- A name of a filter, as a cursor carries it. -/
def nameOf : Value → Option String
  | .str name => some name
  | _ => none

def namesOf : Value → Option (List String)
  | .list values => some (values.filterMap nameOf)
  | _ => none

/-- A page of what is left, and the cursor after the last item of it. -/
def cut (marks : SeqMarks) (seq : Fields → ℤ) (cursor : SeqMarks → Fields) (left : List Fields) :
    List Fields × Option Fields :=
  let selected := left.take marks.limit.toNat
  (selected,
    if marks.limit.toNat < left.length then
      selected.getLast?.map fun last => cursor { marks with position := seq last }
    else none)

/-! ### Events -/

/-- `public_run_events`. -/
def publicRunEvents (runId : String) (afterSeq : ℤ) (types : Option (List String)) (m : Memory) :
    Except Fault (List Fields) := do
  let events ← Streams.getEvents runId afterSeq none types m
  let legacyFailures ← events.mapM Streams.legacyFailure
  if legacyFailures.any id then
    let result ← Streams.getResult runId m
    let retriable ← Streams.resultRetriable result
    events.mapM (Streams.shown retriable)
  else pure events

def eventCursorExpired (runId : String) (retainedFrom position : ℤ) : APIProblem where
  status := 410
  code := "cursor_expired"
  title := "Event cursor expired"
  detail := "Refresh the RunSnapshot and resume from the retained event boundary."
  extras :=
    [("run_id", .str runId), ("retained_from_seq", .int retainedFrom),
      ("lost_event_range", .dict
        [("from_seq", .int (position + 1)), ("through_seq", .int (retainedFrom - 1)),
          ("historical_events_recoverable", .bool false)]),
      ("recovery", .dict [("action", .str "GET_RUN_SNAPSHOT"), ("href", .str ("/v1/runs/" ++ runId))])]

structure EventPage where
  items : List Fields
  nextCursor : Option Fields
  highWatermark : ℤ
  retainedFromSeq : ℤ

structure EventsAsked where
  afterSeq : Option ℤ
  cursor : Option Fields
  limit : Option ℤ
  types : Option (List String)

/-- The marks and the types of a request for events. -/
def eventMarks (tenantId runId : String) (asked : EventsAsked) (snapshot : Fields) (retainedFrom : ℤ) :
    Except Refusal (SeqMarks × Option (List String)) :=
  match asked.cursor with
  | some cursor => do
    if asked.afterSeq.isSome ∨ asked.limit.isSome ∨ asked.types.isSome then
      .error (.problem (invalidCursor "After the first JSON event page, send only cursor."))
    else
      validateCursor cursor "events" tenantId (some runId)
      let marks ← readSeqMarks cursor
      pure (marks, namesOf ((cursor.get "types").getD .null))
  | none => do
    let highWatermark ← intAt snapshot "snapshot_seq"
    pure (⟨asked.afterSeq.getD (max 0 (retainedFrom - 1)), highWatermark, asked.limit.getD 50⟩, asked.types)

/-- `read_run_events`, for a reader who does not ask for a stream. -/
def readRunEvents (tenantId runId : String) (asked : EventsAsked) (m : Memory) : Except Refusal EventPage := do
  let run ← owned tenantId (m.runs.get runId)
  let snapshot := publicRun run
  let retainedFrom ← intAt snapshot "retained_from_seq"
  let (marks, types) ← eventMarks tenantId runId asked snapshot retainedFrom
  if marks.position < max 0 (retainedFrom - 1) then
    .error (.problem (eventCursorExpired runId retainedFrom marks.position))
  else
    let events ← (publicRunEvents runId marks.position types m).mapError .raised
    let candidates := events.filter fun event => seqOf event ≤ marks.highWatermark
    let cursor := fun marks : SeqMarks => marks.cursor "events" tenantId runId [("types", Listing.statusValue types)]
    let (selected, nextCursor) := cut marks seqOf cursor candidates
    pure ⟨selected, nextCursor, marks.highWatermark, retainedFrom⟩

def EventPage.turn (p : EventPage) : List Fields × Option EventsAsked :=
  (p.items, p.nextCursor.map fun cursor => ⟨none, some cursor, none, none⟩)

/-! ### Outputs -/

def outputTypes : List String :=
  ["DATA_QUALITY_REPORT", "TASK_SPEC", "SPLIT_MANIFEST", "BASELINE_RESULT", "COST_ESTIMATE", "TRIAL_RESULT",
    "EVALUATION_REPORT", "LOG_SUMMARY", "MODEL_CARD", "RUN_REPORT", "FAILURE_REPORT"]

def runPhases : List String := ["INGEST", "PROFILE", "PLAN", "TRAIN", "EVALUATE", "PACKAGE"]

def outputStates : List String := ["PARTIAL", "FINAL"]

/-- `int(item["created_seq"])`, which is a number in every output that is committed. -/
def createdSeqOf (output : Fields) : ℤ := (((output.get "created_seq").map Store.toInt).bind Except.toOption).getD 0

def outputIdOf (output : Fields) : String := ((output.get "output_id").bind Value.nonEmptyString?).getD ""

/-- The outputs come by their numbers, and those of one number by their ids. -/
def outputKey (output : Fields) : ℤ ×ₗ String := toLex (createdSeqOf output, outputIdOf output)

structure OutputFilter where
  types : Option (List String)
  phases : Option (List String)
  state : Option String

structure OutputsAsked where
  cursor : Option Fields
  limit : Option ℤ
  filter : OutputFilter

/-- `not allowed or item[field] in allowed`, of a set that may be missing. -/
def admits (names : Option (List String)) (value : Value) : Bool :=
  (names.getD []).isEmpty || (names.getD []).any fun name => value.equal (.str name)

def OutputFilter.keeps (filter : OutputFilter) (output : Fields) : Bool :=
  admits filter.types ((output.get "type").getD .null) && admits filter.phases ((output.get "phase").getD .null) &&
    filter.state.all fun state => ((output.get "state").getD .null).equal (.str state)

def OutputFilter.fields (filter : OutputFilter) : Fields :=
  [("types", Listing.statusValue filter.types), ("phases", Listing.statusValue filter.phases),
    ("state", (filter.state.map Value.str).getD .null)]

/-- The marks and the filter of a request for outputs. -/
def outputMarks (tenantId runId : String) (asked : OutputsAsked) (snapshot : Fields) :
    Except Refusal (SeqMarks × OutputFilter) :=
  match asked.cursor with
  | some cursor => do
    if asked.limit.isSome ∨ asked.filter.types.isSome ∨ asked.filter.phases.isSome ∨ asked.filter.state.isSome then
      .error (.problem (invalidCursor "After the first Output page, send only cursor."))
    else
      validateCursor cursor "outputs" tenantId (some runId)
      let marks ← readSeqMarks cursor
      pure (marks, ⟨namesOf ((cursor.get "types").getD .null), namesOf ((cursor.get "phases").getD .null),
        (cursor.get "state").bind nameOf⟩)
  | none => do
    let highWatermark ← intAt snapshot "snapshot_seq"
    pure (⟨0, highWatermark, asked.limit.getD 50⟩, asked.filter)

/-- The outputs of a run, in their order, as they are shown. -/
def shownOutputs (runId : String) (m : Memory) : List Fields :=
  sortBy outputKey ((((Shelf.outputs runId).items m).map Prod.snd).map publicItem)

def listOutputs (tenantId runId : String) (asked : OutputsAsked) (m : Memory) : Except Refusal Page := do
  let run ← owned tenantId (m.runs.get runId)
  validateFilter asked.filter.types outputTypes "Output type"
  validateFilter asked.filter.phases runPhases "Run phase"
  validateFilter (asked.filter.state.map fun state => [state]) outputStates "Output state"
  let (marks, filter) ← outputMarks tenantId runId asked (publicRun run)
  let candidates := (shownOutputs runId m).filter fun output =>
    (marks.position < createdSeqOf output ∧ createdSeqOf output ≤ marks.highWatermark) && filter.keeps output
  let (selected, nextCursor) := cut marks createdSeqOf (·.cursor "outputs" tenantId runId filter.fields) candidates
  pure ⟨selected, nextCursor, nextCursor.isSome, marks.highWatermark⟩

def outputsTurn (p : Page) : List Fields × Option OutputsAsked :=
  (p.items, p.nextCursor.map fun cursor => ⟨some cursor, none, ⟨none, none, none⟩⟩)

/-- The filter names types, phases and a state that there are. -/
structure OutputFilter.Accepted (filter : OutputFilter) : Prop where
  types : validateFilter filter.types outputTypes "Output type" = .ok ()
  phases : validateFilter filter.phases runPhases "Run phase" = .ok ()
  state : validateFilter (filter.state.map fun state => [state]) outputStates "Output state" = .ok ()

/-! ### Cursors are read as they were written -/

theorem intAt_publicRun {run : Fields} {name : String} (hname : name = "snapshot_seq" ∨ name = "retained_from_seq") {n : ℤ}
    (h : run.get name = some (.int n)) : intAt (publicRun run) name = .ok n := by
  have hget : (publicRun run).get name = run.get name := by
    rcases hname with rfl | rfl <;> unfold publicRun <;> split <;>
      simp [Dict.get_set, Dict.get_only, runPublicFields]
  rw [intAt, hget, h]
  rfl

theorem namesOf_statusValue (names : Option (List String)) : namesOf (Listing.statusValue names) = names := by
  cases names with
  | none => rfl
  | some names =>
    show some ((names.map Value.str).filterMap nameOf) = some names
    rw [List.filterMap_map]
    exact congrArg some (List.filterMap_some ..)

theorem readSeqMarks_cursor {marks : SeqMarks} (hposition : 0 ≤ marks.position) (hmark : 0 ≤ marks.highWatermark)
    (hlimit : 1 ≤ marks.limit) (kind tenantId runId : String) (filters : Fields) :
    readSeqMarks (marks.cursor kind tenantId runId filters) = .ok marks := by
  have hlow : ¬ (marks.position < 0 ∨ marks.highWatermark < 0 ∨ marks.limit < 1) := by omega
  simp [readSeqMarks, SeqMarks.cursor, intOf, Store.toInt, Dict.get_cons, Except.mapError, Bind.bind, Except.bind,
    if_neg hlow]

theorem validateCursor_seqCursor (marks : SeqMarks) (kind tenantId runId : String) (filters : Fields) :
    validateCursor (marks.cursor kind tenantId runId filters) kind tenantId (some runId) = .ok () := by
  simp [validateCursor, SeqMarks.cursor, Dict.get_cons, Value.equal]

/-- The marks of the request that follows a page. -/
theorem eventMarks_next {marks : SeqMarks} (hposition : 0 ≤ marks.position) (hmark : 0 ≤ marks.highWatermark)
    (hlimit : 1 ≤ marks.limit) (tenantId runId : String) (types : Option (List String)) (snapshot : Fields)
    (retainedFrom : ℤ) :
    eventMarks tenantId runId
      ⟨none, some (marks.cursor "events" tenantId runId [("types", Listing.statusValue types)]), none, none⟩ snapshot
      retainedFrom = .ok (marks, types) := by
  have htypes : ((marks.cursor "events" tenantId runId [("types", Listing.statusValue types)]).get "types").getD .null
      = Listing.statusValue types := by
    simp [SeqMarks.cursor, Dict.get_cons]
  simp only [eventMarks, validateCursor_seqCursor, readSeqMarks_cursor hposition hmark hlimit, htypes,
    namesOf_statusValue]
  rfl

theorem outputMarks_next {marks : SeqMarks} (hposition : 0 ≤ marks.position) (hmark : 0 ≤ marks.highWatermark)
    (hlimit : 1 ≤ marks.limit) (tenantId runId : String) (filter : OutputFilter) (snapshot : Fields) :
    outputMarks tenantId runId
      ⟨some (marks.cursor "outputs" tenantId runId filter.fields), none, ⟨none, none, none⟩⟩ snapshot
      = .ok (marks, filter) := by
  obtain ⟨types, phases, state⟩ := filter
  have htypes : ((marks.cursor "outputs" tenantId runId (OutputFilter.fields ⟨types, phases, state⟩)).get "types").getD
      .null = Listing.statusValue types := by
    simp [SeqMarks.cursor, OutputFilter.fields, Dict.get_cons]
  have hphases : ((marks.cursor "outputs" tenantId runId (OutputFilter.fields ⟨types, phases, state⟩)).get
      "phases").getD .null = Listing.statusValue phases := by
    simp [SeqMarks.cursor, OutputFilter.fields, Dict.get_cons]
  have hstate : ((marks.cursor "outputs" tenantId runId (OutputFilter.fields ⟨types, phases, state⟩)).get
      "state").bind nameOf = state := by
    cases state <;> simp [SeqMarks.cursor, OutputFilter.fields, Dict.get_cons, nameOf]
  simp only [outputMarks, validateCursor_seqCursor, readSeqMarks_cursor hposition hmark hlimit, htypes, hphases, hstate,
    namesOf_statusValue]
  rfl

/-- A page cuts what is left of a window. -/
theorem cut_cuts {ρ : Type} {marks : SeqMarks} (hlimit : 1 ≤ marks.limit) {seq : Fields → ℤ} {cursor : SeqMarks → Fields}
    {next : Fields → ρ} {asks : ρ → ℤ → Prop} {left : List Fields}
    (hasks : ∀ item ∈ left, asks (next (cursor { marks with position := seq item })) (seq item)) :
    Paging.Cuts asks id seq marks.limit.toNat left
      ((cut marks seq cursor left).1, (cut marks seq cursor left).2.map next) := by
  refine ⟨List.map_id _, fun hmore => ?_, fun hdone => ?_⟩
  · have hne : left.take marks.limit.toNat ≠ [] := by
      rw [Ne, List.take_eq_nil_iff, not_or]
      refine ⟨by omega, ?_⟩
      rintro rfl
      simp at hmore
    obtain ⟨last, hlast⟩ := Option.ne_none_iff_exists'.mp (mt List.getLast?_eq_none_iff.mp hne)
    refine ⟨_, last, ?_, hlast, hasks last (List.mem_of_mem_take (List.mem_of_getLast? hlast))⟩
    simp only [cut, if_pos hmore, hlast, Option.map_some]
  · simp only [cut, if_neg (Nat.not_lt.mpr hdone), Option.map_none]

end AutomlApi.Pages
