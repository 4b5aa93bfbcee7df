import Mathlib.Data.List.TakeWhile
import AutomlApi.Library.Characters
import AutomlApi.Library.Lines

/-! The frames of the event stream: how the service writes an event and a heartbeat, and
how the SDK reads them. The service leaves every character from U+0080 on as it is, and
the lines of the SDK end at three of them. -/

namespace AutomlApi.Streams

-- Only the elements of a list are asked, not every character.
attribute [local instance (2000)] List.decidableBAll List.decidableBEx

open Lines (feed encode iterLines isBreak Splitter)

/-! ### The service -/

inductive EventType where
  | phaseChanged | stageCompleted | progressUpdated | outputCommitted | decisionPacketRequested
  | approvalRequested | experimentMetricsUpdated | runCompleted | runFailed | runCanceled | runExpired
  deriving DecidableEq

def EventType.text : EventType → String
  | phaseChanged => "run.phase_changed.v1"
  | stageCompleted => "run.stage_completed.v1"
  | progressUpdated => "run.progress_updated.v1"
  | outputCommitted => "output.committed.v1"
  | decisionPacketRequested => "decision_packet.requested.v1"
  | approvalRequested => "approval.requested.v1"
  | experimentMetricsUpdated => "experiment.metrics_updated.v1"
  | runCompleted => "run.completed.v1"
  | runFailed => "run.failed.v1"
  | runCanceled => "run.canceled.v1"
  | runExpired => "run.expired.v1"

/-- An event as the stream yields it: a JSON object, whatever its payload. -/
structure RunEvent where
  fields : List (String × Json)
  seq : ℕ
  type : EventType
  eventId : String
  keyed : (Json.object fields).Keyed
  readable : (Json.object fields).readable
  seq_eq : Dict.get fields "seq" = some (.int seq)
  type_eq : Dict.get fields "type" = some (.str type.text)
  eventId_eq : Dict.get fields "event_id" = some (.str eventId)
  positive : 1 ≤ seq
  named : eventId ≠ ""

/-- `json.dumps(event, ensure_ascii=False, separators=(",", ":"))`. -/
def RunEvent.data (e : RunEvent) : List Char := (Json.object e.fields).text

inductive Item where
  | event (e : RunEvent)
  | heartbeat

def frameOf (e : RunEvent) : List Char :=
  ['i', 'd', ':', ' '] ++ Nat.toDigits 10 e.seq ++ ['\n'] ++
    (['e', 'v', 'e', 'n', 't', ':', ' '] ++ e.type.text.toList ++ ['\n']) ++
    (['d', 'a', 't', 'a', ':', ' '] ++ e.data ++ ['\n']) ++ ['\n']

def Item.frame : Item → List Char
  | .event e => frameOf e
  | .heartbeat => [':', ' ', 'h', 'e', 'a', 'r', 't', 'b', 'e', 'a', 't', '\n', '\n']

def Item.event? : Item → Option RunEvent
  | .event e => some e
  | .heartbeat => none

/-! ### The SDK -/

inductive ProtocolError where
  | json | object | id | name | seq | positive | eventId
  deriving DecidableEq

def ProtocolError.text : ProtocolError → String
  | json => "SSE event data is not valid JSON"
  | object => "SSE event data must be a JSON object"
  | id => "SSE id does not match the event seq"
  | name => "SSE event name does not match the event type"
  | seq => "API response contains invalid event seq"
  | positive => "SSE event seq must be positive"
  | eventId => "event is missing string field 'event_id'"

/-- What `stream_run_events` keeps of the lines of a frame. -/
structure Frame where
  eventId : Option (List Char)
  eventName : Option (List Char)
  dataLines : List (List Char)

def Frame.empty : Frame := ⟨none, none, []⟩

/-- Whether Python finds the value equal to the number. -/
def equalsInt : Option Json → ℕ → Bool
  | some (.scalar (.int i)), n => i = n
  | some (.scalar (.word .true)), n => n = 1
  | some (.scalar (.word .false)), n => n = 0
  | some (.scalar (.decimal d)), n => d.text = Nat.toDigits 10 n ++ ['.', '0']
  | _, _ => false

/-- `_decode_sse_event`. -/
def decodeEvent (f : Frame) : Except ProtocolError (List (String × Json)) :=
  match Json.loads (List.intercalate ['\n'] f.dataLines) with
  | none => .error .json
  | some (.object value) =>
    if f.eventId.any fun id => !(Scalar.digits id && equalsInt (Dict.get value "seq") (Nat.ofDigitChars 10 id 0)) then
      .error .id
    else if f.eventName.any fun name => !(match Dict.get value "type" with
        | some (.str type) => type.toList = name
        | _ => false) then .error .name
    else .ok value
  | some _ => .error .object

/-- A decoded event, with its `seq` and its `event_id`. -/
structure Decoded where
  event : List (String × Json)
  seq : ℕ
  eventId : String

/-- What the blank line after the data of an event does. -/
def Frame.decode (f : Frame) : Except ProtocolError Decoded :=
  match decodeEvent f with
  | .error e => .error e
  | .ok event =>
    match Dict.get event "seq" with
    | some (.scalar (.int (.ofNat seq))) =>
      if seq < 1 then .error .positive
      else
        match Dict.get event "event_id" with
        | some (.str id) => if id = "" then .error .eventId else .ok ⟨event, seq, id⟩
        | _ => .error .eventId
    | _ => .error .seq

/-- `line.partition(":")`, without the blank that the value may start with. -/
def partition (line : List Char) : List Char × List Char :=
  (line.takeWhile (· ≠ ':'),
    match line.dropWhile (· ≠ ':') with
    | ':' :: ' ' :: value => value
    | _ :: value => value
    | [] => [])

def Frame.field (f : Frame) (field value : List Char) : Frame :=
  if field = ['i', 'd'] then { f with eventId := some value }
  else if field = ['e', 'v', 'e', 'n', 't'] then { f with eventName := some value }
  else if field = ['d', 'a', 't', 'a'] then { f with dataLines := f.dataLines ++ [value] }
  else f

def Frame.line (f : Frame) : List Char → Except ProtocolError (Frame × Option Decoded)
  | [] => if f.dataLines.isEmpty then .ok (.empty, none) else f.decode.map fun e => (.empty, some e)
  | ':' :: _ => .ok (f, none)
  | line => .ok (f.field (partition line).1 (partition line).2, none)

/-- What has been decoded of a stream. An error ends it. -/
structure Parsed where
  frame : Frame
  events : List Decoded
  error : Option ProtocolError

def Parsed.start : Parsed := ⟨.empty, [], none⟩

def Parsed.line (p : Parsed) (line : List Char) : Parsed :=
  match p.error with
  | some _ => p
  | none =>
    match p.frame.line line with
    | .error e => { p with error := some e }
    | .ok (frame, event) => ⟨frame, p.events ++ event.toList, none⟩

/-- The events of the pieces that the bytes of a stream arrive in. -/
def decodeStream (pieces : List (List UInt8)) : Parsed := (iterLines pieces).foldl Parsed.line .start

/-! ### Events without a separator -/

/-- The ends of lines that `json.dumps` leaves as they are. -/
def separators : List Char := ['\x85', '\u2028', '\u2029']

/-- No string of the event, and no key at any depth, has a separator. -/
def RunEvent.Unbroken (e : RunEvent) : Prop :=
  ∀ s ∈ (Json.object e.fields).strings, ∀ c ∈ s.toList, c ∉ separators

theorem isBreak_separator {c : Char} (h : c ∈ separators) : isBreak c ∧ 128 ≤ c.toNat ∧ c ≠ '\r' := by
  revert c
  decide

theorem separator_of_isBreak {c : Char} (h : isBreak c) (hc : 32 ≤ c.toNat) : c ∈ separators := by
  have hall : ∀ c ∈ ['\n', '\x0b', '\x0c', '\r', '\x1c', '\x1d', '\x1e', '\x85', '\u2028', '\u2029'],
      32 ≤ c.toNat → c ∈ separators := by decide
  exact hall c (by simpa [isBreak] using h) hc

/-- The only ends of lines in the data of an event are separators of its strings. -/
theorem separator_of_data {e : RunEvent} {c : Char} (h : c ∈ e.data) (hc : isBreak c) :
    c ∈ separators ∧ ∃ s ∈ (Json.object e.fields).strings, c ∈ s.toList := by
  rcases Json.written_text _ c h with ⟨hprintable, hascii⟩ | ⟨hascii, hs⟩
  · have hsep := separator_of_isBreak hc hprintable
    have := (isBreak_separator hsep).2.1
    omega
  · exact ⟨separator_of_isBreak hc (by omega), hs⟩

theorem unbroken_iff (e : RunEvent) : e.Unbroken ↔ ∀ c ∈ e.data, isBreak c = false := by
  constructor
  · intro h c hc
    by_contra hbreak
    rw [Bool.not_eq_false] at hbreak
    obtain ⟨hsep, s, hs, hmem⟩ := separator_of_data hc hbreak
    exact h s hs c hmem hsep
  · intro h s hs c hc hsep
    obtain ⟨hbreak, hascii, -⟩ := isBreak_separator hsep
    have := h c (Json.mem_text_of_strings _ s hascii hs hc)
    rw [hbreak] at this
    cases this

/-- The data of another event stops at its first separator. -/
theorem exists_separator {e : RunEvent} (h : ¬ e.Unbroken) :
    ∃ p c q, e.data = p ++ c :: q ∧ (∀ d ∈ p, isBreak d = false) ∧ c ∈ separators := by
  have hsplit := List.takeWhile_append_dropWhile (p := fun c => !isBreak c) (l := e.data)
  have hbefore : ∀ d ∈ e.data.takeWhile fun c => !isBreak c, isBreak d = false := fun d hd => by
    simpa using List.mem_takeWhile_imp hd
  have hhead := List.head?_dropWhile_not (fun c => !isBreak c) e.data
  cases hrest : e.data.dropWhile fun c => !isBreak c with
  | nil =>
    rw [hrest, List.append_nil] at hsplit
    refine absurd ((unbroken_iff e).mpr ?_) h
    rw [← hsplit]
    exact hbefore
  | cons c q =>
    rw [hrest] at hsplit hhead
    have hbreak : isBreak c := by simpa using hhead
    refine ⟨_, c, q, hsplit.symm, hbefore, (separator_of_data (e := e) ?_ hbreak).1⟩
    rw [← hsplit]
    simp

/-! ### One frame -/

/-- The lines of a text, one after the other. -/
def read (s : Splitter × Parsed) (text : List Char) : Splitter × Parsed :=
  ((feed Splitter.next s.1 text).1, (feed Splitter.next s.1 text).2.foldl Parsed.line s.2)

theorem read_append (s : Splitter × Parsed) (t u : List Char) : read s (t ++ u) = read (read s t) u := by
  rw [read, Lines.feed_append, List.foldl_append]
  rfl

/-- A line that ends in a break, at the beginning of a line. -/
theorem read_line {p : Parsed} {line : List Char} {c : Char} (h : ∀ d ∈ line, isBreak d = false) (hc : isBreak c)
    (hr : c ≠ '\r') (rest : List Char) :
    read (⟨[], false⟩, p) (line ++ c :: rest) = read (⟨[], false⟩, p.line line) rest := by
  rw [read, Lines.feed_line h hc hr]
  rfl

def Decoded.ofEvent (e : RunEvent) : Decoded := ⟨e.fields, e.seq, e.eventId⟩

theorem type_unbroken (t : EventType) : ∀ c ∈ t.text.toList, isBreak c = false := by
  cases t <;> decide +kernel

theorem digits_unbroken (n : ℕ) : ∀ c ∈ Nat.toDigits 10 n, isBreak c = false := by
  intro c hc
  have hdigit := Scalar.isDigit_of_mem_toDigits hc
  by_contra hbreak
  rw [Bool.not_eq_false] at hbreak
  have hall : ∀ c ∈ ['\n', '\x0b', '\x0c', '\r', '\x1c', '\x1d', '\x1e', '\x85', '\u2028', '\u2029'],
      c.isDigit = false := by decide
  rw [hall c (by simpa [isBreak] using hbreak)] at hdigit
  cases hdigit

theorem decode_event (e : RunEvent) :
    Frame.decode ⟨some (Nat.toDigits 10 e.seq), some e.type.text.toList, [e.data]⟩ = .ok (.ofEvent e) := by
  have hloads : Json.loads (List.intercalate ['\n'] [e.data]) = some (.object e.fields) := by
    rw [List.intercalate_singleton]
    exact Json.loads_text e.keyed e.readable
  have hid : (Scalar.digits (Nat.toDigits 10 e.seq) &&
      equalsInt (Dict.get e.fields "seq") (Nat.ofDigitChars 10 (Nat.toDigits 10 e.seq) 0)) = true := by
    rw [Scalar.digits_toDigits, e.seq_eq, Nat.ofDigitChars_toDigits (by decide) (by decide)]
    simp [equalsInt, Json.int]
  have hdecode : decodeEvent ⟨some (Nat.toDigits 10 e.seq), some e.type.text.toList, [e.data]⟩ = .ok e.fields := by
    rw [decodeEvent, hloads]
    simp only [Option.any_some, hid, e.type_eq]
    simp
  have hpositive := e.positive
  rw [Frame.decode, hdecode]
  simp only [e.seq_eq, e.eventId_eq, Json.int]
  rw [if_neg (by omega), if_neg e.named]
  rfl

/-- The `id` and the `event` of a frame. -/
def headOf (e : RunEvent) : Frame := ⟨some (Nat.toDigits 10 e.seq), some e.type.text.toList, []⟩

theorem line_id (p : Parsed) (hp : p.error = none) (v : List Char) :
    p.line (['i', 'd', ':', ' '] ++ v) = { p with frame := { p.frame with eventId := some v } } := by
  obtain ⟨frame, events, error⟩ := p
  cases hp
  simp [Parsed.line, Frame.line, partition, Frame.field]

theorem line_event (p : Parsed) (hp : p.error = none) (v : List Char) :
    p.line (['e', 'v', 'e', 'n', 't', ':', ' '] ++ v) = { p with frame := { p.frame with eventName := some v } } := by
  obtain ⟨frame, events, error⟩ := p
  cases hp
  simp [Parsed.line, Frame.line, partition, Frame.field]

theorem line_data (p : Parsed) (hp : p.error = none) (v : List Char) :
    p.line (['d', 'a', 't', 'a', ':', ' '] ++ v) =
      { p with frame := { p.frame with dataLines := p.frame.dataLines ++ [v] } } := by
  obtain ⟨frame, events, error⟩ := p
  cases hp
  simp [Parsed.line, Frame.line, partition, Frame.field]

theorem unbroken_append {t u : List Char} (ht : ∀ c ∈ t, isBreak c = false) (hu : ∀ c ∈ u, isBreak c = false) :
    ∀ c ∈ t ++ u, isBreak c = false := fun c hc => (List.mem_append.mp hc).elim (ht c) (hu c)

/-- A frame up to its data, between two frames. -/
theorem read_head (e : RunEvent) (events : List Decoded) (rest : List Char) :
    read (⟨[], false⟩, ⟨.empty, events, none⟩)
        (['i', 'd', ':', ' '] ++ Nat.toDigits 10 e.seq ++ ['\n'] ++
          (['e', 'v', 'e', 'n', 't', ':', ' '] ++ e.type.text.toList ++ ['\n']) ++ rest) =
      read (⟨[], false⟩, ⟨headOf e, events, none⟩) rest := by
  have hid : ∀ c ∈ ['i', 'd', ':', ' '] ++ Nat.toDigits 10 e.seq, isBreak c = false :=
    unbroken_append (by decide) (digits_unbroken e.seq)
  have htype : ∀ c ∈ ['e', 'v', 'e', 'n', 't', ':', ' '] ++ e.type.text.toList, isBreak c = false :=
    unbroken_append (by decide) (type_unbroken e.type)
  rw [List.append_assoc, List.append_assoc, List.singleton_append, read_line hid rfl (by decide), List.append_assoc,
    List.singleton_append, read_line htype rfl (by decide), line_id _ rfl, line_event _ rfl]
  rfl

theorem frameOf_eq (e : RunEvent) (rest : List Char) :
    frameOf e ++ rest = ['i', 'd', ':', ' '] ++ Nat.toDigits 10 e.seq ++ ['\n'] ++
      (['e', 'v', 'e', 'n', 't', ':', ' '] ++ e.type.text.toList ++ ['\n']) ++
      (['d', 'a', 't', 'a', ':', ' '] ++ e.data ++ '\n' :: '\n' :: rest) := by
  simp only [frameOf, List.append_assoc, List.cons_append, List.nil_append]

/-- The frame of an event without a separator is read as that event. -/
theorem read_frame {e : RunEvent} (h : e.Unbroken) (events : List Decoded) (rest : List Char) :
    read (⟨[], false⟩, ⟨.empty, events, none⟩) (frameOf e ++ rest) =
      read (⟨[], false⟩, ⟨.empty, events ++ [.ofEvent e], none⟩) rest := by
  have hdata : ∀ c ∈ ['d', 'a', 't', 'a', ':', ' '] ++ e.data, isBreak c = false :=
    unbroken_append (by decide) ((unbroken_iff e).mp h)
  have hdecode : Parsed.line ⟨{ headOf e with dataLines := [e.data] }, events, none⟩ [] =
      ⟨.empty, events ++ [.ofEvent e], none⟩ := by
    have hframe : Frame.line { headOf e with dataLines := [e.data] } [] = .ok (.empty, some (.ofEvent e)) := by
      rw [Frame.line, if_neg (by simp), headOf, decode_event]
      rfl
    rw [Parsed.line, hframe]
    rfl
  rw [frameOf_eq, read_head, read_line hdata rfl (by decide), line_data _ rfl,
    ← List.nil_append ('\n' :: rest), read_line (by simp) rfl (by decide)]
  exact congrArg (fun p => read (⟨[], false⟩, p) rest) hdecode

theorem read_heartbeat (events : List Decoded) (rest : List Char) :
    read (⟨[], false⟩, ⟨.empty, events, none⟩) (Item.heartbeat.frame ++ rest) =
      read (⟨[], false⟩, ⟨.empty, events, none⟩) rest := by
  have hframe : Item.heartbeat.frame ++ rest =
      [':', ' ', 'h', 'e', 'a', 'r', 't', 'b', 'e', 'a', 't'] ++ '\n' :: ([] ++ '\n' :: rest) := rfl
  rw [hframe, read_line (by decide) rfl (by decide), read_line (by simp) rfl (by decide)]
  simp [Parsed.line, Frame.line, Frame.empty]

/-! ### A frame whose data is cut -/

theorem Parsed.line_error {p : Parsed} (h : p.error.isSome) (line : List Char) : p.line line = p := by
  obtain ⟨error, he⟩ := Option.isSome_iff_exists.mp h
  rw [Parsed.line, he]

theorem Parsed.lines_error {p : Parsed} (h : p.error.isSome) (lines : List (List Char)) :
    lines.foldl Parsed.line p = p := by
  induction lines with
  | nil => rfl
  | cons line lines ih => rw [List.foldl_cons, Parsed.line_error h, ih]

/-- The data lines of an event whose data is cut at a separator. -/
def Cut (e : RunEvent) (lines : List (List Char)) : Prop :=
  ∃ p c q more, e.data = p ++ c :: q ∧ c ∈ separators ∧ lines = p :: more

theorem Cut.refused {e : RunEvent} {f : Frame} (h : Cut e f.dataLines) : f.decode = .error .json := by
  obtain ⟨p, c, q, more, hdata, hc, hlines⟩ := h
  have hjoin : ∃ r, List.intercalate ['\n'] f.dataLines = p ++ r ∧ Json.Stops r := by
    rw [hlines]
    cases more with
    | nil => exact ⟨[], by simp, .inl rfl⟩
    | cons m more =>
      refine ⟨'\n' :: List.intercalate ['\n'] (m :: more), ?_, .inr ⟨_, rfl⟩⟩
      rw [List.intercalate_cons_cons, List.append_assoc, List.singleton_append]
  obtain ⟨r, hjoin, hstops⟩ := hjoin
  have hloads := Json.loads_cut e.keyed e.readable (isBreak_separator hc).2.1 hstops hdata
  rw [Frame.decode, decodeEvent, hjoin, hloads]

/-- What a line leaves of such a frame: an error, or the frame with more lines. -/
theorem Cut.line {e : RunEvent} {p : Parsed} (h : p.error.isSome ∨ Cut e p.frame.dataLines) (line : List Char) :
    (p.line line).events = p.events ∧ ((p.line line).error.isSome ∨ Cut e (p.line line).frame.dataLines) ∧
      (line = [] → (p.line line).error.isSome) := by
  obtain ⟨frame, events, error⟩ := p
  cases error with
  | some error => exact ⟨rfl, .inl rfl, fun _ => rfl⟩
  | none =>
    have hcut : Cut e frame.dataLines := h.resolve_left (by simp)
    cases line with
    | nil =>
      have hne : frame.dataLines.isEmpty = false := by
        obtain ⟨p, c, q, more, -, -, hlines⟩ := hcut
        rw [hlines]
        rfl
      have hline : Parsed.line ⟨frame, events, none⟩ [] = ⟨frame, events, some .json⟩ := by
        simp [Parsed.line, Frame.line, hne, hcut.refused, Except.map]
      rw [hline]
      exact ⟨rfl, .inl rfl, fun _ => rfl⟩
    | cons d line =>
      by_cases hcomment : d = ':'
      · have hline : Parsed.line ⟨frame, events, none⟩ (d :: line) = ⟨frame, events, none⟩ := by
          subst hcomment
          simp [Parsed.line, Frame.line]
        rw [hline]
        exact ⟨rfl, .inr hcut, nofun⟩
      · have hline : Parsed.line ⟨frame, events, none⟩ (d :: line) =
            ⟨frame.field (partition (d :: line)).1 (partition (d :: line)).2, events, none⟩ := by
          rw [Parsed.line]
          dsimp only
          rw [Frame.line]
          · simp
          · exact nofun
          · intro rest heq
            exact hcomment (List.cons.inj heq).1
        rw [hline]
        refine ⟨rfl, .inr ?_, nofun⟩
        dsimp only
        unfold Frame.field
        split
        · exact hcut
        split
        · exact hcut
        split
        · obtain ⟨p, c, q, more, hdata, hc, hlines⟩ := hcut
          exact ⟨p, c, q, more ++ [_], hdata, hc, by rw [hlines]; rfl⟩
        · exact hcut

theorem Cut.lines {e : RunEvent} {p : Parsed} (h : p.error.isSome ∨ Cut e p.frame.dataLines)
    (lines : List (List Char)) : (lines.foldl Parsed.line p).events = p.events ∧
      ((lines.foldl Parsed.line p).error.isSome ∨ Cut e (lines.foldl Parsed.line p).frame.dataLines) ∧
      ([] ∈ lines → (lines.foldl Parsed.line p).error.isSome) := by
  induction lines generalizing p with
  | nil => exact ⟨rfl, h, nofun⟩
  | cons line lines ih =>
    obtain ⟨hevents, hcut, hblank⟩ := Cut.line h line
    obtain ⟨hevents', hcut', hblank'⟩ := ih hcut
    refine ⟨hevents'.trans hevents, hcut', fun hmem => ?_⟩
    rcases List.mem_cons.mp hmem with heq | hmem
    · have herror := hblank heq.symm
      rw [List.foldl_cons, Parsed.lines_error herror]
      exact herror
    · exact hblank' hmem

/-- The frame of an event with a separator is refused. -/
theorem read_broken {e : RunEvent} (h : ¬ e.Unbroken) (events : List Decoded) :
    (read (⟨[], false⟩, ⟨.empty, events, none⟩) (frameOf e)).2.events = events ∧
      (read (⟨[], false⟩, ⟨.empty, events, none⟩) (frameOf e)).2.error.isSome := by
  obtain ⟨p, c, q, hdata, hp, hc⟩ := exists_separator h
  obtain ⟨hbreak, -, hr⟩ := isBreak_separator hc
  have hline : ∀ d ∈ ['d', 'a', 't', 'a', ':', ' '] ++ p, isBreak d = false := unbroken_append (by decide) hp
  have hcut : Cut e ({ headOf e with dataLines := [p] } : Frame).dataLines := ⟨p, c, q, [], hdata, hc, rfl⟩
  have hframe : read (⟨[], false⟩, ⟨.empty, events, none⟩) (frameOf e) =
      read (⟨[], false⟩, ⟨{ headOf e with dataLines := [p] }, events, none⟩) (q ++ ['\n'] ++ ['\n']) := by
    have hsplit : ['d', 'a', 't', 'a', ':', ' '] ++ (p ++ c :: q) ++ ['\n', '\n'] =
        (['d', 'a', 't', 'a', ':', ' '] ++ p) ++ c :: (q ++ ['\n'] ++ ['\n']) := by simp
    rw [← List.append_nil (frameOf e), frameOf_eq, read_head, hdata, hsplit, read_line hline hbreak hr,
      line_data _ rfl]
    rfl
  have hopen := Lines.feed_lineFeed ⟨[], false⟩ q
  have hlast : (feed Splitter.next ⟨[], false⟩ (q ++ ['\n'] ++ ['\n'])).2 =
      (feed Splitter.next ⟨[], false⟩ (q ++ ['\n'])).2 ++ [[]] := by
    rw [Lines.feed_append, hopen]
    rfl
  rw [hframe]
  have hlines := Cut.lines (p := ⟨{ headOf e with dataLines := [p] }, events, none⟩) (.inr hcut)
    (feed Splitter.next ⟨[], false⟩ (q ++ ['\n'] ++ ['\n'])).2
  refine ⟨hlines.1, hlines.2.2 ?_⟩
  rw [hlast]
  simp

/-! ### Streams -/

theorem read_items {items : List Item} (h : ∀ e ∈ items.filterMap Item.event?, e.Unbroken) (events : List Decoded) :
    read (⟨[], false⟩, ⟨.empty, events, none⟩) (items.flatMap Item.frame) =
      (⟨[], false⟩, ⟨.empty, events ++ (items.filterMap Item.event?).map .ofEvent, none⟩) := by
  induction items generalizing events with
  | nil => simp [read, feed]
  | cons item items ih =>
    cases item with
    | event e =>
      have he : e.Unbroken := h e (by simp [Item.event?])
      have hrest : ∀ f ∈ items.filterMap Item.event?, f.Unbroken := fun f hf =>
        h f (by rw [List.filterMap_cons]; exact List.mem_cons_of_mem _ hf)
      rw [List.flatMap_cons, Item.frame, read_frame he, ih hrest, List.append_assoc]
      rfl
    | heartbeat =>
      rw [List.flatMap_cons, read_heartbeat, ih h]
      rfl

theorem read_refused {items : List Item} (h : ∃ e ∈ items.filterMap Item.event?, ¬ e.Unbroken) (events : List Decoded) :
    (read (⟨[], false⟩, ⟨.empty, events, none⟩) (items.flatMap Item.frame)).2.error.isSome := by
  induction items generalizing events with
  | nil => simp at h
  | cons item items ih =>
    cases item with
    | event e =>
      by_cases he : e.Unbroken
      · rw [List.flatMap_cons, Item.frame, read_frame he]
        obtain ⟨f, hf, hbroken⟩ := h
        refine ih ⟨f, ?_, hbroken⟩ _
        rw [List.filterMap_cons] at hf
        exact (List.mem_cons.mp hf).resolve_left fun heq => hbroken (heq ▸ he)
      · rw [List.flatMap_cons, Item.frame, read_append]
        have herror := (read_broken he events).2
        rw [read, Parsed.lines_error herror]
        exact herror
    | heartbeat =>
      rw [List.flatMap_cons, read_heartbeat]
      exact ih h events

theorem decodeStream_eq {items : List Item} {pieces : List (List UInt8)}
    (h : pieces.flatten = encode (items.flatMap Item.frame)) :
    decodeStream pieces =
      (feed Splitter.next ⟨[], false⟩ (items.flatMap Item.frame)).1.flush.foldl Parsed.line
        (read (⟨[], false⟩, .start) (items.flatMap Item.frame)).2 := by
  rw [decodeStream, Lines.iterLines_eq h, List.foldl_append]
  rfl

theorem stream_decoded {items : List Item} {pieces : List (List UInt8)}
    (h : pieces.flatten = encode (items.flatMap Item.frame))
    (hunbroken : ∀ e ∈ items.filterMap Item.event?, e.Unbroken) :
    decodeStream pieces = ⟨.empty, (items.filterMap Item.event?).map .ofEvent, none⟩ := by
  have hread := read_items hunbroken []
  have hsplitter : (feed Splitter.next ⟨[], false⟩ (items.flatMap Item.frame)).1 = ⟨[], false⟩ :=
    (congrArg Prod.fst hread :)
  rw [decodeStream_eq h, hsplitter, Parsed.start, hread]
  simp [Splitter.flush]

theorem stream_refused {items : List Item} {pieces : List (List UInt8)}
    (h : pieces.flatten = encode (items.flatMap Item.frame))
    (hbroken : ∃ e ∈ items.filterMap Item.event?, ¬ e.Unbroken) : (decodeStream pieces).error.isSome := by
  have herror := read_refused hbroken []
  rw [decodeStream_eq h, Parsed.start, Parsed.lines_error herror]
  exact herror

/-- Wherever the bytes of a stream are cut, the SDK decodes its events exactly when none
of them has a separator in a string. -/
theorem frames_decoded_iff {items : List Item} {pieces : List (List UInt8)}
    (h : pieces.flatten = encode (items.flatMap Item.frame)) :
    ((decodeStream pieces).error = none ∧
      (decodeStream pieces).events.map (·.event) = (items.filterMap Item.event?).map (·.fields)) ↔
    ∀ e ∈ items.filterMap Item.event?, e.Unbroken := by
  constructor
  · rintro ⟨hnone, -⟩
    by_contra hbroken
    push Not at hbroken
    have hrefused := stream_refused h hbroken
    rw [hnone] at hrefused
    cases hrefused
  · intro hunbroken
    rw [stream_decoded h hunbroken]
    exact ⟨rfl, by simp [Decoded.ofEvent]⟩

/-! ### A line separator in a message -/

namespace Message

def fields (message : String) : List (String × Json) :=
  [("event_id", .str "evt_1"), ("seq", .int 1), ("type", .str "run.failed.v1"),
    ("payload", .object [("message", .str message)])]

def event (message : String) : RunEvent where
  fields := fields message
  seq := 1
  type := .runFailed
  eventId := "evt_1"
  keyed := by simp [fields, Json.Keyed, Json.KeyedFields, Json.int]
  readable := rfl
  seq_eq := rfl
  type_eq := rfl
  eventId_eq := rfl
  positive := le_refl 1
  named := by decide

def items (message : String) : List Item := [.heartbeat, .event (event message), .heartbeat]

/-- The bytes of the stream, one by one. -/
def pieces (message : String) : List (List UInt8) := (encode ((items message).flatMap Item.frame)).map fun b => [b]

theorem flatten_pieces (message : String) :
    (pieces message).flatten = encode ((items message).flatMap Item.frame) := by
  rw [pieces, ← List.flatMap_def, List.flatMap_singleton']

end Message

/-- A message with a character that is no separator. -/
theorem frames_decoded_iff_plain :
    (decodeStream (Message.pieces "colonne « prix » absente")).error = none ∧
      (decodeStream (Message.pieces "colonne « prix » absente")).events.map (·.event) =
        [Message.fields "colonne « prix » absente"] := by
  refine (frames_decoded_iff (Message.flatten_pieces _)).mpr ?_
  intro e he
  cases List.mem_singleton.mp he
  intro s hs
  revert s
  decide +kernel

/-- A line separator in a message splits the data of its event, which the SDK refuses. -/
theorem separator_refused : ∃ (items : List Item) (pieces : List (List UInt8)),
    pieces.flatten = encode (items.flatMap Item.frame) ∧
    ¬ ((decodeStream pieces).error = none ∧
      (decodeStream pieces).events.map (·.event) = (items.filterMap Item.event?).map (·.fields)) := by
  refine ⟨Message.items "one\u2028two", Message.pieces "one\u2028two", Message.flatten_pieces _, ?_⟩
  have herror : (decodeStream (Message.pieces "one\u2028two")).error = some .json := by decide +kernel
  rintro ⟨hnone, -⟩
  rw [herror] at hnone
  cases hnone

end AutomlApi.Streams
