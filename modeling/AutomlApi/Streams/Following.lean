import AutomlApi.Library.Runs
import AutomlApi.Streams.Frames

/-! `stream_run_events` of the SDK against a server whose streams yield the events of the
run after `Last-Event-ID`, over any disconnections. When a connection has ended the SDK
reads the run, and it ends where the run is TERMINAL, whether or not the connection has
brought the events that were left. -/

namespace AutomlApi.Streams

-- Only the elements of a list are asked, not every character.
attribute [local instance (2000)] List.decidableBAll List.decidableBEx

open Runs (Run)
open Lines (feed encode nextByte Splitter Receiver)

/-! ### The client -/

/-- `_TERMINAL_EVENT_TYPES`. -/
def terminalTypes : List String := ["run.completed.v1", "run.failed.v1", "run.canceled.v1", "run.expired.v1"]

/-- How a connection ends: with a transport error, or closed by the server. -/
inductive Ending where
  | lost | closed

/-- The lines of a connection. Only where the server closes it does an unfinished line
come out. -/
def linesOf (pieces : List (List UInt8)) (ending : Ending) : List (List Char) :=
  match ending with
  | .lost => (feed (feed Receiver.next) .start pieces).2
  | .closed => Lines.iterLines pieces

/-- What a request for the stream comes to: a transport error; an answer that is no
stream; an expired cursor, with the run that is read then; or a stream. -/
inductive Attempt where
  | refused
  | rejected
  | expired (snapshotSeq : ℕ) (terminal : Bool)
  | served (items : List Item) (pieces : List (List UInt8)) (ending : Ending)

/-- The arguments of `stream_run_events`. -/
structure Following where
  afterSeq : Option ℕ
  types : Option (List String)
  recoverExpired : Bool
  maxReconnects : Option ℕ

/-- What is kept over the connections. -/
structure Progress where
  currentSeq : ℕ
  seen : List String
  yielded : List Decoded

/-- `event.get("type") in _TERMINAL_EVENT_TYPES`. -/
def Decoded.terminal (d : Decoded) : Bool :=
  match Dict.get d.event "type" with
  | some (.str type) => type ∈ terminalTypes
  | _ => false

/-- A decoded event, and whether it ends the stream. -/
def Progress.accept (p : Progress) (d : Decoded) : Progress × Bool :=
  let currentSeq := max p.currentSeq d.seq
  if d.eventId ∈ p.seen then ({ p with currentSeq := currentSeq }, false)
  else (⟨currentSeq, d.eventId :: p.seen, p.yielded ++ [d]⟩, d.terminal)

/-- The next request; the lines of a stream; the reading of the run; or the end. -/
inductive Stand where
  | connecting
  | reading (frame : Frame)
  | checking
  | returned
  | raised

structure Client where
  progress : Progress
  reconnects : ℕ
  recovered : Bool
  stand : Stand

def Client.line (c : Client) (line : List Char) : Client :=
  match c.stand with
  | .reading frame =>
    match frame.line line with
    | .error _ => { c with stand := .raised }
    | .ok (frame, none) => { c with stand := .reading frame }
    | .ok (frame, some d) =>
      let accepted := c.progress.accept d
      { c with progress := accepted.1, stand := if accepted.2 then .returned else .reading frame }
  | _ => c

def Following.exhausted (q : Following) (c : Client) : Bool := q.maxReconnects.any (· ≤ c.reconnects)

/-- `except httpx.TransportError`. -/
def Client.fault (q : Following) (c : Client) : Client :=
  { c with stand := if q.exhausted c then .raised else .checking }

/-- The end of a connection. -/
def Client.ended (q : Following) (ending : Ending) (c : Client) : Client :=
  match c.stand with
  | .reading _ =>
    match ending with
    | .lost => c.fault q
    | .closed => { c with stand := .checking }
  | _ => c

def Client.attempt (q : Following) (c : Client) : Attempt → Client
  | .refused => c.fault q
  | .rejected => { c with stand := .raised }
  | .expired snapshotSeq terminal =>
    if q.recoverExpired then
      { c with
        progress := { c.progress with currentSeq := snapshotSeq }
        recovered := true
        stand := if terminal then .returned else .checking }
    else { c with stand := .raised }
  | .served _ pieces ending =>
    ((linesOf pieces ending).foldl Client.line { c with stand := .reading .empty }).ended q ending

/-- The reading of the run after a connection. -/
def Client.look (q : Following) (terminal answered : Bool) (c : Client) : Client :=
  match c.stand with
  | .checking =>
    if !answered then { c with stand := .raised }
    else if terminal then { c with stand := .returned }
    else if q.exhausted c then { c with stand := .raised }
    else { c with reconnects := c.reconnects + 1, stand := .connecting }
  | _ => c

/-! ### Beside the run -/

structure State where
  events : List RunEvent
  client : Client

/-- One turn of the loop: what is logged until the connection has ended, the connection,
what is logged until the run is read, and that reading. -/
structure Turn where
  arrived : List RunEvent
  attempt : Attempt
  logged : List RunEvent
  terminal : Bool
  answered : Bool

def Turn.events (s : State) (t : Turn) : List RunEvent := s.events ++ t.arrived ++ t.logged

def lastSeq (events : List RunEvent) : ℕ := (events.getLast?.map (·.seq)).getD 0

/-- The position before the first request. -/
def Following.start (q : Following) (events : List RunEvent) : ℕ := q.afterSeq.getD (lastSeq events)

def Following.opened (q : Following) (events : List RunEvent) (terminal : Bool) : State :=
  ⟨events, ⟨⟨q.start events, [], []⟩, 0, false,
    if q.afterSeq.isNone && terminal then .returned else .connecting⟩⟩

def Following.step (q : Following) (s : State) (t : Turn) : Option State :=
  match s.client.stand with
  | .connecting => some ⟨t.events s, (s.client.attempt q t.attempt).look q t.terminal t.answered⟩
  | _ => none

/-- The events that a stream after `position` yields. -/
def Following.wants (q : Following) (position : ℕ) (e : RunEvent) : Bool :=
  decide (position < e.seq) && q.types.all (e.type.text ∈ ·)

/-- The log of a run: numbered in order, with an id for each event. -/
structure Sound (events : List RunEvent) : Prop where
  sorted : events.Pairwise fun e f => e.seq < f.seq
  distinct : (events.map (·.eventId)).Nodup

/-- The server serves the events after the position of the client, from the first on, and
of their frames some bytes arrive. -/
structure Following.Serves (q : Following) (s : State) (t : Turn) : Prop where
  sound : Sound (t.events s)
  served : ∀ items pieces ending, t.attempt = .served items pieces ending →
    items.filterMap Item.event? <+: (s.events ++ t.arrived).filter (q.wants s.client.progress.currentSeq) ∧
      pieces.flatten <+: encode (items.flatMap Item.frame)

def EventType.terminal (type : EventType) : Bool := type.text ∈ terminalTypes

/-- Up to the first terminal event. -/
def upToTerminal : List RunEvent → List RunEvent
  | [] => []
  | e :: rest => if e.type.terminal then [e] else e :: upToTerminal rest

/-- The client has yielded what it should have: the events after its start that match the
filter, up to the terminal event, each once and in order. -/
def Following.Exact (q : Following) (start : ℕ) (s : State) : Prop :=
  s.client.progress.yielded = (upToTerminal (s.events.filter (q.wants start))).map .ofEvent

/-- Nothing is left that the client waits for, or the connection has brought the whole
frames of all of it. -/
def Following.Brings (q : Following) (s : State) (t : Turn) : Prop :=
  let due := upToTerminal ((t.events s).filter (q.wants s.client.progress.currentSeq))
  due = [] ∨ ∃ items pieces ending a b, t.attempt = .served items pieces ending ∧ items = a ++ b ∧
    encode (a.flatMap Item.frame) <+: pieces.flatten ∧ a.filterMap Item.event? = due

/-! ### What a connection brings -/

/-- What is decoded of the bytes of a connection, after some events. -/
def received (events : List Decoded) (bytes : List UInt8) (ending : Ending) : Parsed :=
  let chars := feed nextByte [] bytes
  let s := read (⟨[], false⟩, ⟨.empty, events, none⟩) chars.2
  match ending with
  | .lost => s.2
  | .closed => (Receiver.flush ⟨chars.1, s.1⟩).foldl Parsed.line s.2

theorem received_eq (pieces : List (List UInt8)) (ending : Ending) :
    (linesOf pieces ending).foldl Parsed.line .start = received [] pieces.flatten ending := by
  cases ending with
  | lost =>
    rw [linesOf, Lines.feed_pieces, Receiver.feed_eq]
    rfl
  | closed =>
    rw [linesOf, Lines.iterLines, Lines.feed_pieces, Receiver.feed_eq, List.foldl_append]
    rfl

/-- Only a blank line decodes an event. -/
theorem Parsed.line_events (p : Parsed) {line : List Char} (h : line ≠ []) : (p.line line).events = p.events := by
  obtain ⟨frame, events, error⟩ := p
  cases error with
  | some error => rfl
  | none =>
    match line with
    | [] => exact absurd rfl h
    | c :: line =>
      have hok : ∃ frame', Frame.line frame (c :: line) = .ok (frame', none) := by
        rw [Frame.line.eq_def]
        split
        · rename_i heq
          cases heq
        · exact ⟨_, rfl⟩
        · exact ⟨_, rfl⟩
      obtain ⟨frame', hline⟩ := hok
      simp [Parsed.line, hline]

theorem Parsed.lines_events (p : Parsed) {lines : List (List Char)} (h : [] ∉ lines) :
    (lines.foldl Parsed.line p).events = p.events := by
  induction lines generalizing p with
  | nil => rfl
  | cons line lines ih =>
    rw [List.mem_cons, not_or] at h
    rw [List.foldl_cons, ih _ h.2, Parsed.line_events p (Ne.symm h.1)]

/-- A frame without the line feed that ends it. -/
def Item.body : Item → List Char
  | .event e =>
    ['i', 'd', ':', ' '] ++ Nat.toDigits 10 e.seq ++ ['\n'] ++
      (['e', 'v', 'e', 'n', 't', ':', ' '] ++ e.type.text.toList ++ ['\n']) ++
      (['d', 'a', 't', 'a', ':', ' '] ++ e.data ++ ['\n'])
  | .heartbeat => [':', ' ', 'h', 'e', 'a', 'r', 't', 'b', 'e', 'a', 't', '\n']

theorem Item.frame_eq (i : Item) : i.frame = i.body ++ ['\n'] := by
  cases i with
  | event e => rfl
  | heartbeat => rfl

theorem Item.no_return (i : Item) : '\r' ∉ i.body := by
  have hbreak : ∀ {text : List Char}, (∀ c ∈ text, Lines.isBreak c = false) → '\r' ∉ text := fun h hmem => by
    cases h _ hmem
  cases i with
  | event e =>
    have hdata : '\r' ∉ e.data := fun hmem => by
      have := (separator_of_data hmem rfl).1
      exact absurd this (by decide)
    have hdigits := hbreak (digits_unbroken e.seq)
    have htype := hbreak (type_unbroken e.type)
    simp only [Item.body, List.mem_append, not_or]
    exact ⟨⟨⟨⟨by decide, hdigits⟩, by decide⟩, ⟨by decide, htype⟩, by decide⟩, ⟨by decide, hdata⟩, by decide⟩
  | heartbeat => decide

theorem feed_returned {s : Splitter} {text : List Char} (hs : s.returned = false) (h : '\r' ∉ text) :
    (feed Splitter.next s text).1.returned = false := by
  induction text generalizing s with
  | nil => exact hs
  | cons c text ih =>
    rw [List.mem_cons, not_or] at h
    refine ih ?_ h.2
    rw [Splitter.next, if_neg (by simp [hs]), Splitter.add, if_neg (Ne.symm h.1)]
    split <;> rfl

/-- The end of a connection brings no blank line where no carriage return is pending. -/
theorem flush_blank {r : Receiver} (h : r.splitter.returned = false) : [] ∉ r.flush := by
  obtain ⟨held, line, returned⟩ := r
  cases h
  have hbreak : Lines.isBreak '\uFFFD' = false := by decide
  unfold Receiver.flush
  by_cases hheld : held = []
  · rw [if_pos hheld]
    simp only [feed, Splitter.flush, Bool.false_eq_true, false_or, List.nil_append]
    split
    · rename_i hline
      exact fun hmem => hline (List.mem_singleton.mp hmem).symm
    · exact List.not_mem_nil
  · rw [if_neg hheld]
    simp only [feed, Splitter.next_add hbreak, Splitter.flush]
    simp

/-- The lines of a frame before its last one: none is blank, unless the data is cut. -/
theorem body_lines (e : RunEvent) (events : List Decoded) :
    ∃ first more, (feed Splitter.next ⟨[], false⟩ (Item.event e).body).2 = first ++ more ∧ [] ∉ first ∧
      (more = [] ∨ Cut e (first.foldl Parsed.line ⟨.empty, events, none⟩).frame.dataLines) := by
  have hid : ∀ c ∈ ['i', 'd', ':', ' '] ++ Nat.toDigits 10 e.seq, Lines.isBreak c = false :=
    unbroken_append (by decide) (digits_unbroken e.seq)
  have htype : ∀ c ∈ ['e', 'v', 'e', 'n', 't', ':', ' '] ++ e.type.text.toList, Lines.isBreak c = false :=
    unbroken_append (by decide) (type_unbroken e.type)
  have hlines : ∀ {p rest : List Char} {c : Char}, e.data ++ ['\n'] = p ++ c :: rest →
      (∀ d ∈ p, Lines.isBreak d = false) → Lines.isBreak c → c ≠ '\r' →
      (feed Splitter.next ⟨[], false⟩ (Item.event e).body).2 =
        [['i', 'd', ':', ' '] ++ Nat.toDigits 10 e.seq, ['e', 'v', 'e', 'n', 't', ':', ' '] ++ e.type.text.toList,
          ['d', 'a', 't', 'a', ':', ' '] ++ p] ++ (feed Splitter.next ⟨[], false⟩ rest).2 := by
    intro p rest c hdata hp hc hr
    have hline : ∀ d ∈ ['d', 'a', 't', 'a', ':', ' '] ++ p, Lines.isBreak d = false := unbroken_append (by decide) hp
    rw [Item.body, List.append_assoc, List.append_assoc, List.singleton_append, Lines.feed_line hid rfl (by decide),
      List.append_assoc, List.singleton_append, Lines.feed_line htype rfl (by decide), List.append_assoc, hdata,
      ← List.append_assoc, Lines.feed_line hline hc hr]
    rfl
  by_cases h : e.Unbroken
  · refine ⟨_, _, hlines (show e.data ++ ['\n'] = e.data ++ '\n' :: [] from rfl) ((unbroken_iff e).mp h) rfl (by decide),
      by simp, .inl rfl⟩
  · obtain ⟨p, c, q, hdata, hp, hc⟩ := exists_separator h
    obtain ⟨hbreak, -, hr⟩ := isBreak_separator hc
    have hsplit : e.data ++ ['\n'] = p ++ c :: (q ++ ['\n']) := by rw [hdata, List.append_assoc, List.cons_append]
    refine ⟨_, _, hlines hsplit hp hbreak hr, by simp, .inr ?_⟩
    rw [List.foldl_cons, List.foldl_cons, List.foldl_cons, List.foldl_nil, line_id _ rfl, line_event _ rfl,
      line_data _ rfl]
    exact ⟨p, c, q, [], hdata, hc, rfl⟩

/-- The lines of the beginning of a frame decode no event. -/
theorem body_events (i : Item) (events : List Decoded) {lines : List (List Char)}
    (h : lines <+: (feed Splitter.next ⟨[], false⟩ i.body).2) :
    (lines.foldl Parsed.line ⟨.empty, events, none⟩).events = events := by
  cases i with
  | heartbeat =>
    refine Parsed.lines_events _ fun hmem => ?_
    have := h.subset hmem
    revert this
    decide
  | event e =>
    obtain ⟨first, more, hlines, hblank, hrest⟩ := body_lines e events
    rw [hlines] at h
    rcases List.prefix_or_prefix_of_prefix h (List.prefix_append first more) with hfirst | ⟨rest, rfl⟩
    · exact Parsed.lines_events _ fun hmem => hblank (hfirst.subset hmem)
    · rcases hrest with rfl | hcut
      · rw [List.append_nil] at h
        exact Parsed.lines_events _ fun hmem => hblank (h.subset hmem)
      · rw [List.foldl_append, (Cut.lines (.inr hcut) rest).1]
        exact Parsed.lines_events _ hblank

theorem received_partial (i : Item) (events : List Decoded) {bytes : List UInt8} (h : bytes <+: encode i.frame)
    (hne : bytes ≠ encode i.frame) (ending : Ending) : (received events bytes ending).events = events := by
  have hbody : bytes <+: encode i.body := by
    rw [Item.frame_eq, Lines.encode_append] at h hne
    exact (List.prefix_concat_iff.mp h).resolve_left hne
  obtain ⟨rest, hrest⟩ := hbody
  have hchars : (feed nextByte [] bytes).2 <+: i.body := by
    have hwhole := Lines.feed_encode i.body
    rw [← hrest, Lines.feed_append] at hwhole
    exact ⟨_, congrArg Prod.snd hwhole⟩
  obtain ⟨more, hmore⟩ := hchars
  have hlines : (feed Splitter.next ⟨[], false⟩ (feed nextByte [] bytes).2).2 <+:
      (feed Splitter.next ⟨[], false⟩ i.body).2 := by
    rw [← hmore, Lines.feed_append]
    exact List.prefix_append _ _
  have hread : (read (⟨[], false⟩, ⟨.empty, events, none⟩) (feed nextByte [] bytes).2).2.events = events :=
    body_events i events hlines
  cases ending with
  | lost => exact hread
  | closed =>
    have hreturn : '\r' ∉ (feed nextByte [] bytes).2 := fun hmem =>
      i.no_return (by rw [← hmore]; exact List.mem_append_left _ hmem)
    exact (Parsed.lines_events _ (flush_blank (feed_returned rfl hreturn))).trans hread

theorem received_append (events : List Decoded) (text : List Char) (bytes : List UInt8) (ending : Ending)
    {events' : List Decoded} (h : ∀ rest, read (⟨[], false⟩, ⟨.empty, events, none⟩) (text ++ rest) =
      read (⟨[], false⟩, ⟨.empty, events', none⟩) rest) :
    received events (encode text ++ bytes) ending = received events' bytes ending := by
  unfold received
  rw [Lines.feed_append, Lines.feed_encode]
  dsimp only
  rw [h]

theorem received_broken {e : RunEvent} (h : ¬ e.Unbroken) (events : List Decoded) (bytes : List UInt8)
    (ending : Ending) : (received events (encode (frameOf e) ++ bytes) ending).events = events ∧
      (received events (encode (frameOf e) ++ bytes) ending).error.isSome := by
  obtain ⟨hevents, herror⟩ := read_broken h events
  have hread : ∀ rest, (read (⟨[], false⟩, ⟨.empty, events, none⟩) (frameOf e ++ rest)).2 =
      (read (⟨[], false⟩, ⟨.empty, events, none⟩) (frameOf e)).2 := fun rest => by
    rw [read_append, read, Parsed.lines_error herror]
  have heq : received events (encode (frameOf e) ++ bytes) ending =
      (read (⟨[], false⟩, ⟨.empty, events, none⟩) (frameOf e)).2 := by
    unfold received
    rw [Lines.feed_append, Lines.feed_encode]
    dsimp only
    cases ending with
    | lost => exact hread _
    | closed =>
      dsimp only
      rw [hread, Parsed.lines_error herror]
  rw [heq]
  exact ⟨hevents, herror⟩

/-- A connection decodes the events of the whole frames that it brings, in their order, and
stops before the last of them only with an error. -/
theorem received_items (items : List Item) (events : List Decoded) {bytes : List UInt8}
    (h : bytes <+: encode (items.flatMap Item.frame)) (ending : Ending) :
    ∃ a b, items = a ++ b ∧ encode (a.flatMap Item.frame) <+: bytes ∧
      (received events bytes ending).events = events ++ (a.filterMap Item.event?).map .ofEvent ∧
      ((received events bytes ending).error = none →
        ∀ i rest, b = i :: rest → ¬ encode ((a ++ [i]).flatMap Item.frame) <+: bytes) := by
  induction items generalizing events bytes with
  | nil =>
    obtain rfl := List.prefix_nil.mp h
    refine ⟨[], [], rfl, List.prefix_rfl, ?_, nofun⟩
    cases ending <;> simp [received, read, feed, Receiver.flush, Splitter.flush]
  | cons i items ih =>
    rw [List.flatMap_cons, Lines.encode_append] at h
    by_cases hwhole : encode i.frame <+: bytes
    · obtain ⟨bytes', rfl⟩ := hwhole
      have hrest := (List.prefix_append_right_inj _).mp h
      have hstep : ∀ events', (∀ rest, read (⟨[], false⟩, ⟨.empty, events, none⟩) (i.frame ++ rest) =
          read (⟨[], false⟩, ⟨.empty, events', none⟩) rest) → events' = events ++ i.event?.toList.map .ofEvent →
          ∃ a b, i :: items = a ++ b ∧ encode (a.flatMap Item.frame) <+: encode i.frame ++ bytes' ∧
            (received events (encode i.frame ++ bytes') ending).events =
              events ++ (a.filterMap Item.event?).map .ofEvent ∧
            ((received events (encode i.frame ++ bytes') ending).error = none → ∀ j rest, b = j :: rest →
              ¬ encode ((a ++ [j]).flatMap Item.frame) <+: encode i.frame ++ bytes') := by
        intro events' hread hevents'
        obtain ⟨a, b, rfl, hbytes, hevents, hmaximal⟩ := ih events' hrest
        rw [received_append events i.frame bytes' ending hread]
        refine ⟨i :: a, b, rfl, ?_, ?_, fun herror j rest hb hprefix => hmaximal herror j rest hb ?_⟩
        · rw [List.flatMap_cons, Lines.encode_append]
          exact (List.prefix_append_right_inj _).mpr hbytes
        · rw [hevents, hevents', List.append_assoc]
          cases i <;> rfl
        · rw [List.cons_append, List.flatMap_cons, Lines.encode_append] at hprefix
          exact (List.prefix_append_right_inj _).mp hprefix
      cases i with
      | heartbeat => exact hstep events (read_heartbeat events) (by simp [Item.event?])
      | event e =>
        by_cases he : e.Unbroken
        · exact hstep _ (read_frame he events) rfl
        · obtain ⟨hevents, herror⟩ := received_broken he events bytes' ending
          refine ⟨[], _, rfl, List.nil_prefix, ?_, fun hnone => ?_⟩
          · rw [List.filterMap_nil, List.map_nil, List.append_nil]
            exact hevents
          change (received events (encode (frameOf e) ++ bytes') ending).error = none at hnone
          rw [hnone] at herror
          cases herror
    · have hpartial : bytes <+: encode i.frame :=
        (List.prefix_or_prefix_of_prefix h (List.prefix_append _ _)).resolve_right hwhole
      have hne : bytes ≠ encode i.frame := fun heq => hwhole (heq ▸ List.prefix_rfl)
      refine ⟨[], _, rfl, List.nil_prefix, ?_, fun _ j rest hb => ?_⟩
      · simpa using received_partial i events hpartial hne ending
      · cases hb
        simpa using hwhole

/-! ### What the client makes of it -/

/-- Decoded events one after the other, up to the one that ends the stream. -/
def Progress.accepts (p : Progress) : List Decoded → Progress × Bool
  | [] => (p, false)
  | d :: ds => if (p.accept d).2 then p.accept d else (p.accept d).1.accepts ds

theorem Client.lines_done {c : Client} (h : ∀ frame, c.stand ≠ .reading frame) (lines : List (List Char)) :
    lines.foldl Client.line c = c := by
  induction lines with
  | nil => rfl
  | cons line lines ih =>
    have hline : c.line line = c := by
      unfold Client.line
      split
      · rename_i frame heq
        exact absurd heq (h frame)
      · rfl
    rw [List.foldl_cons, hline, ih]

/-- Where a client stands after lines: ended by an event, by an error, or reading on. -/
def Client.after (c : Client) (events : List Decoded) (parsed : Parsed) : Client :=
  { c with
    progress := (c.progress.accepts events).1
    stand := if (c.progress.accepts events).2 then .returned
      else if parsed.error.isSome then .raised else .reading parsed.frame }

/-- The client takes the events that the lines decode one after the other. -/
theorem Client.lines_eq (c : Client) {frame : Frame} (hc : c.stand = .reading frame) (lines : List (List Char))
    (events : List Decoded) : ∃ ds, (lines.foldl Parsed.line ⟨frame, events, none⟩).events = events ++ ds ∧
      lines.foldl Client.line c = c.after ds (lines.foldl Parsed.line ⟨frame, events, none⟩) := by
  induction lines generalizing c frame events with
  | nil =>
    refine ⟨[], (List.append_nil _).symm, ?_⟩
    obtain ⟨progress, reconnects, recovered, stand⟩ := c
    cases hc
    rfl
  | cons line lines ih =>
    rw [List.foldl_cons, List.foldl_cons]
    cases hline : frame.line line with
    | error e =>
      have hparsed : Parsed.line ⟨frame, events, none⟩ line = ⟨frame, events, some e⟩ := by
        simp [Parsed.line, hline]
      have hclient : c.line line = { c with stand := .raised } := by simp [Client.line, hc, hline]
      rw [hparsed, hclient, Parsed.lines_error rfl, Client.lines_done (by simp)]
      exact ⟨[], (List.append_nil _).symm, rfl⟩
    | ok r =>
      obtain ⟨next, event⟩ := r
      cases event with
      | none =>
        have hparsed : Parsed.line ⟨frame, events, none⟩ line = ⟨next, events, none⟩ := by
          simp [Parsed.line, hline]
        have hclient : c.line line = { c with stand := .reading next } := by simp [Client.line, hc, hline]
        rw [hparsed, hclient]
        exact ih _ rfl events
      | some d =>
        have hparsed : Parsed.line ⟨frame, events, none⟩ line = ⟨next, events ++ [d], none⟩ := by
          simp [Parsed.line, hline]
        rw [hparsed]
        by_cases hdone : (c.progress.accept d).2
        · have hclient : c.line line = { c with progress := (c.progress.accept d).1, stand := .returned } := by
            simp [Client.line, hc, hline, hdone]
          obtain ⟨ds, hds, -⟩ := ih { c with stand := .reading next } rfl (events ++ [d])
          refine ⟨d :: ds, by rw [hds, List.append_assoc]; rfl, ?_⟩
          rw [hclient, Client.lines_done (by simp), Client.after, Progress.accepts, if_pos hdone]
          simp [hdone]
        · have hclient : c.line line = { c with progress := (c.progress.accept d).1, stand := .reading next } := by
            simp [Client.line, hc, hline, hdone]
          obtain ⟨ds, hds, heq⟩ :=
            ih { c with progress := (c.progress.accept d).1, stand := .reading next } rfl (events ++ [d])
          refine ⟨d :: ds, by rw [hds, List.append_assoc]; rfl, ?_⟩
          rw [hclient, heq, Client.after, Client.after, Progress.accepts, if_neg hdone]

/-! ### In order, each once -/

/-- What a client that goes on has yielded: the events that it wants up to its position,
none of them terminal. -/
structure Following.Caught (q : Following) (start : ℕ) (events : List RunEvent) (p : Progress) : Prop where
  split : ∃ ys, events.filter (q.wants start) = ys ++ events.filter (q.wants p.currentSeq) ∧
    p.yielded = ys.map .ofEvent ∧ (∀ e ∈ ys, e.type.terminal = false) ∧ ∀ id, id ∈ p.seen ↔ id ∈ ys.map (·.eventId)
  later : start ≤ p.currentSeq
  position : p.currentSeq = start ∨ ∃ e ∈ events, e.seq = p.currentSeq

theorem Decoded.terminal_ofEvent (e : RunEvent) : (Decoded.ofEvent e).terminal = e.type.terminal := by
  rw [Decoded.terminal, Decoded.ofEvent, e.type_eq]
  rfl

theorem wants_of_le {q : Following} {p p' : ℕ} (h : p ≤ p') (e : RunEvent) :
    q.wants p' e = (q.wants p e && decide (p' < e.seq)) := by
  unfold Following.wants
  by_cases hlt : p' < e.seq
  · have : p < e.seq := by omega
    simp [hlt, this]
  · simp [hlt]

/-- After the next event that the client wants, the others are left. -/
theorem filter_next {q : Following} {events rest : List RunEvent} {p : ℕ} {e : RunEvent}
    (hsorted : events.Pairwise fun e f => e.seq < f.seq) (h : events.filter (q.wants p) = e :: rest) :
    p < e.seq ∧ events.filter (q.wants e.seq) = rest := by
  have he : e ∈ events.filter (q.wants p) := h ▸ List.mem_cons_self
  have hlt : p < e.seq := by
    have := (List.mem_filter.mp he).2
    rw [Following.wants, Bool.and_eq_true, decide_eq_true_eq] at this
    exact this.1
  refine ⟨hlt, ?_⟩
  have htail := (h ▸ hsorted.filter (q.wants p) : (e :: rest).Pairwise fun e f => e.seq < f.seq)
  have hfilter : events.filter (q.wants e.seq) = (events.filter (q.wants p)).filter fun f => decide (e.seq < f.seq) := by
    rw [List.filter_filter]
    refine List.filter_congr fun f _ => ?_
    rw [wants_of_le (Nat.le_of_lt hlt), Bool.and_comm]
  rw [hfilter, h, List.filter_cons_of_neg (by simp), List.filter_eq_self.mpr]
  intro f hf
  exact decide_eq_true (List.rel_of_pairwise_cons htail hf)

theorem Sound.append_left {events more : List RunEvent} (h : Sound (events ++ more)) : Sound events :=
  ⟨h.sorted.sublist (List.sublist_append_left _ _),
    h.distinct.sublist ((List.sublist_append_left _ _).map _)⟩

/-- Events that are logged later are all behind the position of the client. -/
theorem Following.Caught.grow {q : Following} {start : ℕ} {events more : List RunEvent} {p : Progress}
    (h : q.Caught start events p) (hsound : Sound (events ++ more)) : q.Caught start (events ++ more) p := by
  obtain ⟨⟨ys, hsplit, hys⟩, hlater, hposition⟩ := h
  refine ⟨⟨ys, ?_, hys⟩, hlater, hposition.imp_right fun ⟨e, he, heq⟩ => ⟨e, List.mem_append_left _ he, heq⟩⟩
  rw [List.filter_append, List.filter_append, hsplit, List.append_assoc]
  congr 2
  refine List.filter_congr fun f hf => ?_
  rcases hposition with heq | ⟨e, he, heq⟩
  · rw [heq]
  · have hlt : e.seq < f.seq := (List.pairwise_append.mp hsound.sorted).2.2 e he f hf
    rw [wants_of_le hlater, ← heq]
    simp [hlt]

theorem upToTerminal_append {ys : List RunEvent} (h : ∀ e ∈ ys, e.type.terminal = false) (rest : List RunEvent) :
    upToTerminal (ys ++ rest) = ys ++ upToTerminal rest := by
  induction ys with
  | nil => rfl
  | cons e ys ih =>
    rw [List.cons_append, upToTerminal, if_neg (by simp [h e List.mem_cons_self]),
      ih fun f hf => h f (List.mem_cons_of_mem _ hf)]
    rfl

theorem upToTerminal_ended {es : List RunEvent} (h : es.any (·.type.terminal)) (rest : List RunEvent) :
    upToTerminal (es ++ rest) = upToTerminal es := by
  induction es with
  | nil => cases h
  | cons e es ih =>
    rw [List.cons_append, upToTerminal, upToTerminal]
    split
    · rfl
    · rename_i hno
      rw [ih (by simpa [hno] using h)]

/-- The first of the events that are left, decoded: it is yielded, and the others are left. -/
theorem Following.Caught.accept {q : Following} {start : ℕ} {events rest : List RunEvent} {p : Progress} {e : RunEvent}
    (h : q.Caught start events p) (hsound : Sound events) (hleft : events.filter (q.wants p.currentSeq) = e :: rest) :
    (p.accept (.ofEvent e)).2 = e.type.terminal ∧ events.filter (q.wants (p.accept (.ofEvent e)).1.currentSeq) = rest ∧
      (e.type.terminal → (p.accept (.ofEvent e)).1.yielded =
        (upToTerminal (events.filter (q.wants start))).map .ofEvent) ∧
      (e.type.terminal = false → q.Caught start events (p.accept (.ofEvent e)).1) := by
  obtain ⟨⟨ys, hsplit, hyielded, hopen, hseen⟩, hlater, -⟩ := h
  obtain ⟨hlt, hrest⟩ := filter_next hsound.sorted hleft
  have hfresh : e.eventId ∉ p.seen := by
    rw [hseen]
    have hnodup : ((ys ++ e :: rest).map (·.eventId)).Nodup := by
      rw [← hleft, ← hsplit]
      exact hsound.distinct.sublist (List.filter_sublist.map _)
    rw [List.map_append, List.nodup_append] at hnodup
    exact fun hmem => hnodup.2.2 _ hmem _ List.mem_cons_self rfl
  have haccept : p.accept (.ofEvent e) =
      (⟨e.seq, e.eventId :: p.seen, p.yielded ++ [.ofEvent e]⟩, e.type.terminal) := by
    rw [Progress.accept, if_neg (show (Decoded.ofEvent e).eventId ∉ p.seen from hfresh), Decoded.terminal_ofEvent,
      show max p.currentSeq (Decoded.ofEvent e).seq = e.seq from max_eq_right (Nat.le_of_lt hlt)]
    rfl
  have he : e ∈ events := (List.mem_filter.mp (hleft ▸ List.mem_cons_self : e ∈ events.filter _)).1
  rw [haccept]
  refine ⟨rfl, hrest, fun hterminal => ?_, fun hterminal => ⟨⟨ys ++ [e], ?_, ?_, ?_, fun id => ?_⟩, ?_, .inr ⟨e, he, rfl⟩⟩⟩
  · dsimp only
    rw [hsplit, hleft, upToTerminal_append hopen, upToTerminal, if_pos hterminal, hyielded, List.map_append]
    rfl
  · rw [hsplit, hleft, hrest, List.append_assoc]
    rfl
  · dsimp only
    rw [hyielded, List.map_append]
    rfl
  · intro f hf
    rcases List.mem_append.mp hf with hf | hf
    · exact hopen f hf
    · rw [List.mem_singleton.mp hf]
      exact hterminal
  · dsimp only
    rw [List.mem_cons, hseen, List.map_append, List.mem_append, List.map_singleton, List.mem_singleton, or_comm]
  · exact Nat.le_trans hlater (Nat.le_of_lt hlt)

theorem Following.Caught.accepts {q : Following} {start : ℕ} {events : List RunEvent} (hsound : Sound events)
    (as : List RunEvent) {bs : List RunEvent} {p : Progress} (h : q.Caught start events p)
    (hleft : events.filter (q.wants p.currentSeq) = as ++ bs) :
    (p.accepts (as.map .ofEvent)).2 = as.any (·.type.terminal) ∧
      (as.any (·.type.terminal) → (p.accepts (as.map .ofEvent)).1.yielded =
        (upToTerminal (events.filter (q.wants start))).map .ofEvent) ∧
      (as.any (·.type.terminal) = false → q.Caught start events (p.accepts (as.map .ofEvent)).1 ∧
        events.filter (q.wants (p.accepts (as.map .ofEvent)).1.currentSeq) = bs) := by
  induction as generalizing p with
  | nil => exact ⟨rfl, nofun, fun _ => ⟨h, hleft⟩⟩
  | cons e as ih =>
    obtain ⟨hdone, hrest, hyielded, hcaught⟩ := h.accept hsound hleft
    rw [List.map_cons, Progress.accepts, hdone, List.any_cons]
    by_cases hterminal : e.type.terminal
    · rw [if_pos hterminal, hterminal, Bool.true_or]
      exact ⟨hdone.trans hterminal, fun _ => hyielded hterminal, nofun⟩
    · rw [Bool.not_eq_true] at hterminal
      rw [hterminal, if_neg Bool.false_ne_true, Bool.false_or]
      exact ih (hcaught hterminal) hrest

/-! ### One turn -/

/-- The items up to the first terminal event among theirs. -/
theorem items_upToTerminal (items : List Item) (h : (items.filterMap Item.event?).any (·.type.terminal)) :
    ∃ a b, items = a ++ b ∧ a.filterMap Item.event? = upToTerminal (items.filterMap Item.event?) := by
  induction items with
  | nil => cases h
  | cons i items ih =>
    cases i with
    | heartbeat =>
      obtain ⟨a, b, rfl, ha⟩ := ih h
      exact ⟨.heartbeat :: a, b, rfl, ha⟩
    | event e =>
      by_cases he : e.type.terminal
      · exact ⟨[.event e], items, rfl, by simp [Item.event?, upToTerminal, he]⟩
      · obtain ⟨a, b, rfl, ha⟩ := ih (by simpa [Item.event?, he] using h)
        refine ⟨.event e :: a, b, rfl, ?_⟩
        show e :: a.filterMap Item.event? = upToTerminal (e :: (a ++ b).filterMap Item.event?)
        rw [ha, upToTerminal, if_neg he]

theorem encode_mono {a b : List Item} (h : a <+: b) : encode (a.flatMap Item.frame) <+: encode (b.flatMap Item.frame) := by
  obtain ⟨c, rfl⟩ := h
  rw [List.flatMap_append, Lines.encode_append]
  exact List.prefix_append _ _

section

variable {q : Following} {start : ℕ} {s u : State} {t : Turn}

theorem look_stand (terminal answered : Bool) (c : Client) (h : c.stand ≠ .checking) : c.look q terminal answered = c := by
  unfold Client.look
  split
  · rename_i heq
    exact absurd heq h
  · rfl

theorem look_checking (terminal answered : Bool) {c : Client} (h : c.stand = .checking) :
    (c.look q terminal answered).progress = c.progress ∧ (c.look q terminal answered).recovered = c.recovered ∧
      ((c.look q terminal answered).stand = .raised ∨ (c.look q terminal answered).stand = .returned ∨
        (c.look q terminal answered).stand = .connecting) := by
  unfold Client.look
  rw [h]
  dsimp only
  split
  · exact ⟨rfl, rfl, .inl rfl⟩
  split
  · exact ⟨rfl, rfl, .inr (.inl rfl)⟩
  split
  · exact ⟨rfl, rfl, .inl rfl⟩
  · exact ⟨rfl, rfl, .inr (.inr rfl)⟩

theorem fault_stand (q : Following) (c : Client) : (c.fault q).stand = .raised ∨ (c.fault q).stand = .checking := by
  unfold Client.fault
  dsimp only
  split
  · exact .inl rfl
  · exact .inr rfl

/-- Where the client is exact up to a position and returns there, it is exact at the end
exactly if nothing is left. -/
theorem exact_iff {events : List RunEvent} {p : Progress} (h : q.Caught start events p) :
    p.yielded = (upToTerminal (events.filter (q.wants start))).map .ofEvent ↔
      upToTerminal (events.filter (q.wants p.currentSeq)) = [] := by
  obtain ⟨⟨ys, hsplit, hyielded, hopen, -⟩, -⟩ := h
  rw [hsplit, upToTerminal_append hopen, hyielded, List.map_append, List.self_eq_append_right, List.map_eq_nil_iff]

/-- What a turn leaves: a client that has caught up with a part of the log, or one that
has returned, with everything exactly if the turn has brought it. -/
theorem turn_spec (hcaught : q.Caught start u.events u.client.progress) (hserves : q.Serves u t)
    (hstep : q.step u t = some s) (hrecovered : s.client.recovered = false) :
    (s.client.stand = .connecting → q.Caught start s.events s.client.progress) ∧
      (s.client.stand = .returned → (q.Exact start s ↔ q.Brings u t)) := by
  have hsound := hserves.sound
  have hgrown : q.Caught start (t.events u) u.client.progress := by
    unfold Turn.events at hsound ⊢
    rw [List.append_assoc] at hsound ⊢
    exact hcaught.grow hsound
  unfold Following.step at hstep
  split at hstep
  case h_2 => cases hstep
  rename_i hstand
  cases hstep
  -- the client after its attempt, where that leads to the reading of the run
  have hlook : ∀ c : Client, q.Caught start (t.events u) c.progress → c.stand = .raised ∨ c.stand = .checking →
      ((upToTerminal ((t.events u).filter (q.wants c.progress.currentSeq)) = []) ↔ q.Brings u t) →
      ((c.look q t.terminal t.answered).stand = .connecting →
        q.Caught start (t.events u) (c.look q t.terminal t.answered).progress) ∧
      ((c.look q t.terminal t.answered).stand = .returned →
        (q.Exact start ⟨t.events u, c.look q t.terminal t.answered⟩ ↔ q.Brings u t)) := by
    intro c hc hstand hbrings
    rcases hstand with hraised | hchecking
    · rw [look_stand _ _ c (by rw [hraised]; nofun), hraised]
      exact ⟨nofun, nofun⟩
    · obtain ⟨hprogress, -, -⟩ := look_checking (q := q) t.terminal t.answered hchecking
      rw [Following.Exact, hprogress, exact_iff hc]
      exact ⟨fun _ => hc, fun _ => hbrings⟩
  dsimp only at hrecovered ⊢
  cases hattempt : t.attempt with
  | refused =>
    refine hlook _ hgrown (fault_stand q u.client) ⟨.inl, ?_⟩
    rintro (hnone | ⟨items, pieces, ending, a, b, hserved, -⟩)
    · exact hnone
    · rw [hattempt] at hserved
      cases hserved
  | rejected =>
    rw [look_stand _ _ _ (by simp [Client.attempt])]
    exact ⟨nofun, nofun⟩
  | expired snapshotSeq terminal =>
    rw [hattempt, Client.attempt] at hrecovered
    rw [Client.attempt]
    by_cases hrecover : q.recoverExpired
    · rw [if_pos hrecover] at hrecovered
      exfalso
      cases terminal with
      | true => cases hrecovered
      | false =>
        rw [(look_checking _ _ (by rfl)).2.1] at hrecovered
        cases hrecovered
    · rw [if_neg hrecover, look_stand _ _ _ (by nofun)]
      exact ⟨nofun, nofun⟩
  | served items pieces ending =>
    obtain ⟨hitems, hbytes⟩ := hserves.served items pieces ending hattempt
    obtain ⟨a, b, rfl, harrived, hevents, hmaximal⟩ := received_items items [] hbytes ending
    obtain ⟨ds, hds, hclient⟩ :=
      Client.lines_eq { u.client with stand := .reading .empty } rfl (linesOf pieces ending) []
    have hparsed := received_eq pieces ending
    rw [show (⟨.empty, [], none⟩ : Parsed) = .start from rfl, hparsed] at hds hclient
    rw [hevents, List.nil_append, List.nil_append] at hds
    obtain ⟨rest, hrest⟩ : a.filterMap Item.event? <+: (t.events u).filter (q.wants u.client.progress.currentSeq) := by
      rw [Turn.events, List.filter_append]
      rw [List.filterMap_append] at hitems
      exact (List.prefix_append _ _).trans (hitems.trans (List.prefix_append _ _))
    obtain ⟨hdone, hyielded, hcaught'⟩ := hgrown.accepts hsound _ hrest.symm
    rw [Client.attempt, hclient, ← hds]
    unfold Client.after Client.ended
    by_cases hended : (a.filterMap Item.event?).any (·.type.terminal)
    · -- the terminal event has come
      rw [hdone, hended, if_pos rfl]
      dsimp only
      rw [look_stand _ _ _ (by nofun)]
      refine ⟨nofun, fun _ => iff_of_true (hyielded hended) (.inr ?_)⟩
      obtain ⟨a₁, a₂, ha, ha₁⟩ := items_upToTerminal a hended
      refine ⟨_, pieces, ending, a₁, a₂ ++ b, hattempt, by rw [ha, List.append_assoc], ?_, ?_⟩
      · exact (encode_mono (ha ▸ List.prefix_append a₁ a₂)).trans harrived
      · rw [ha₁, ← hrest, upToTerminal_ended hended]
    · rw [Bool.not_eq_true] at hended
      obtain ⟨hcaught', hleft⟩ := hcaught' hended
      rw [hdone, hended, if_neg Bool.false_ne_true]
      by_cases herror : (received [] pieces.flatten ending).error.isSome
      · rw [if_pos herror]
        dsimp only
        rw [look_stand _ _ _ (by nofun)]
        exact ⟨nofun, nofun⟩
      rw [if_neg herror]
      have hopen : ∀ e ∈ a.filterMap Item.event?, e.type.terminal = false := fun e he => by
        simpa using List.any_eq_false.mp hended e he
      have hbrings : upToTerminal rest = [] ↔ q.Brings u t := by
        unfold Following.Brings
        rw [← hrest, upToTerminal_append hopen]
        constructor
        · intro hnone
          exact .inr ⟨_, pieces, ending, a, b, hattempt, rfl, harrived, by rw [hnone, List.append_nil]⟩
        · rintro (hnone | ⟨items, pieces', ending', a', b', hserved, hitems', harrived', hevents'⟩)
          · exact (List.append_eq_nil_iff.mp hnone).2
          · rw [hattempt] at hserved
            cases hserved
            -- the whole frames that have come are those of a
            have hshort : a' <+: a := by
              rcases List.append_eq_append_iff.mp hitems' with ⟨c, rfl, hb⟩ | ⟨c, rfl, -⟩
              · cases c with
                | nil => exact ⟨[], by simp⟩
                | cons i c =>
                  refine absurd ?_ (hmaximal (by simpa using herror) i (c ++ b') (by rw [hb]; rfl))
                  refine (encode_mono ?_).trans harrived'
                  exact ⟨c, by rw [List.append_assoc]; rfl⟩
              · exact List.prefix_append a' c
            have hlength := (hshort.filterMap Item.event?).length_le
            rw [hevents', List.length_append] at hlength
            exact List.length_eq_zero_iff.mp (by omega)
      have hbrings' : upToTerminal ((t.events u).filter (q.wants
          (u.client.progress.accepts ((a.filterMap Item.event?).map .ofEvent)).1.currentSeq)) = [] ↔ q.Brings u t := by
        rw [hleft]
        exact hbrings
      cases ending with
      | lost => exact hlook (Client.fault q _) hcaught' (fault_stand q _) hbrings'
      | closed => exact hlook { u.client with progress := _, stand := .checking } hcaught' (.inr rfl) hbrings'

theorem recovered_line (c : Client) (line : List Char) : (c.line line).recovered = c.recovered := by
  unfold Client.line
  split
  · split <;> rfl
  · rfl

theorem recovered_lines (c : Client) (lines : List (List Char)) :
    (lines.foldl Client.line c).recovered = c.recovered := by
  induction lines generalizing c with
  | nil => rfl
  | cons line lines ih => rw [List.foldl_cons, ih, recovered_line]

theorem recovered_look (c : Client) (terminal answered : Bool) :
    (c.look q terminal answered).recovered = c.recovered := by
  by_cases h : c.stand = .checking
  · exact (look_checking _ _ h).2.1
  · rw [look_stand _ _ c h]

/-- A client that has recovered from an expired cursor stays one that has. -/
theorem recovered_step (hstep : q.step u t = some s) (h : u.client.recovered) : s.client.recovered := by
  unfold Following.step at hstep
  split at hstep
  case h_2 => cases hstep
  cases hstep
  dsimp only
  rw [recovered_look]
  unfold Client.attempt
  split
  · exact h
  · exact h
  · split
    · rfl
    · exact h
  · have hlines := recovered_lines { u.client with stand := .reading .empty }
    unfold Client.ended
    split
    · split
      · exact (hlines _).trans h
      · exact (hlines _).trans h
    · exact (hlines _).trans h

end

/-! ### Every run of the client -/

theorem le_lastSeq {events : List RunEvent} (h : Sound events) {e : RunEvent} (he : e ∈ events) :
    e.seq ≤ lastSeq events := by
  have hne : events ≠ [] := List.ne_nil_of_mem he
  rw [lastSeq, List.getLast?_eq_getLast_of_ne_nil hne, Option.map_some, Option.getD_some]
  rcases List.mem_append.mp ((List.dropLast_append_getLast hne).symm ▸ he : e ∈ events.dropLast ++ [events.getLast hne])
    with hbefore | hlast
  · have hsorted := h.sorted
    rw [← List.dropLast_append_getLast hne] at hsorted
    exact Nat.le_of_lt ((List.pairwise_append.mp hsorted).2.2 e hbefore _ (List.mem_singleton_self _))
  · rw [List.mem_singleton.mp hlast]

theorem caught_opened (q : Following) (events : List RunEvent) (terminal : Bool) :
    q.Caught (q.start events) events (q.opened events terminal).client.progress :=
  ⟨⟨[], rfl, rfl, by simp, by simp [Following.opened]⟩, le_rfl, .inl rfl⟩

/-- Over any history of connections, lost, refused or closed wherever they are: a client
that returns has yielded exactly what it should exactly when its last connection has
brought all that was left. -/
theorem following_exact_iff {q : Following} {events : List RunEvent} (terminal : Bool) (h : Sound events) :
    ((q.opened events terminal).client.stand = .returned →
      q.Exact (q.start events) (q.opened events terminal)) ∧
    ∀ ts u t s, Run q.step q.Serves (q.opened events terminal) ts u → q.Serves u t → q.step u t = some s →
      s.client.stand = .returned → s.client.recovered = false →
      (q.Exact (q.start events) s ↔ q.Brings u t) := by
  constructor
  · intro hreturned
    have hnone : q.afterSeq = none := by
      cases hq : q.afterSeq with
      | none => rfl
      | some n => simp [Following.opened, hq] at hreturned
    have hfilter : events.filter (q.wants (q.start events)) = [] := by
      refine List.filter_eq_nil_iff.mpr fun e he hwants => ?_
      rw [Following.wants, Bool.and_eq_true, decide_eq_true_eq, Following.start, hnone] at hwants
      exact absurd hwants.1 (Nat.not_lt.mpr (le_lastSeq h he))
    show [] = (upToTerminal (events.filter (q.wants (q.start events)))).map Decoded.ofEvent
    rw [hfilter]
    rfl
  · intro ts u t s hrun hserves hstep hreturned hrecovered
    have hinv := hrun.invariant
      (I := fun u => u.client.recovered = false → u.client.stand = .connecting →
        q.Caught (q.start events) u.events u.client.progress)
      (fun u t v hu hok hv hrecovered hstand => by
        have hbefore : u.client.recovered = false := by
          by_contra hno
          rw [Bool.not_eq_false] at hno
          rw [recovered_step hv hno] at hrecovered
          cases hrecovered
        have hconnecting : u.client.stand = .connecting := by
          unfold Following.step at hv
          split at hv
          · assumption
          · cases hv
        exact (turn_spec (hu hbefore hconnecting) hok hv hrecovered).1 hstand)
      (fun _ _ => caught_opened q events terminal)
    have hbefore : u.client.recovered = false := by
      by_contra hno
      rw [Bool.not_eq_false] at hno
      rw [recovered_step hstep hno] at hrecovered
      cases hrecovered
    have hconnecting : u.client.stand = .connecting := by
      unfold Following.step at hstep
      split at hstep
      · assumption
      · cases hstep
    exact (turn_spec (hinv hbefore hconnecting) hserves hstep hrecovered).2 hreturned

/-! ### A run that ends while the client is away -/

namespace Away

def event (seq : ℕ) (positive : 1 ≤ seq) (type : EventType) (eventId : String) (named : eventId ≠ "") : RunEvent where
  fields := [("event_id", .str eventId), ("seq", .int seq), ("type", .str type.text), ("payload", .object [])]
  seq := seq
  type := type
  eventId := eventId
  keyed := by simp [Json.Keyed, Json.KeyedFields, Json.int]
  readable := rfl
  seq_eq := rfl
  type_eq := rfl
  eventId_eq := rfl
  positive := positive
  named := named

theorem first_positive : 1 ≤ 1 := Nat.le_refl 1

theorem first_named : "evt_1" ≠ "" := by decide

def first : RunEvent := event 1 first_positive .phaseChanged "evt_1" first_named

def last : RunEvent := event 2 (by decide) .runCompleted "evt_2" (by decide)

theorem sound : Sound [first, last] := ⟨by simp [first, last, event], by simp [first, last, event]⟩

def query (types : Option (List String)) : Following := ⟨some 0, types, false, none⟩

/-- The connection is lost after the first event; the run has completed before it is read. -/
def turn (ending : Ending) : Turn :=
  ⟨[], .served [.event first] [encode (frameOf first)] ending, [last], true, true⟩

theorem serves (types : Option (List String)) (h : types.all (first.type.text ∈ ·)) (ending : Ending) :
    (query types).Serves ((query types).opened [first] false) (turn ending) where
  sound := sound
  served := by
    intro items pieces ending' hattempt
    cases hattempt
    refine ⟨?_, by simp [Item.frame]⟩
    have hwants : (query types).wants 0 first = true := by
      rw [Following.wants, show (query types).types = types from rfl, h]
      rfl
    have hfilter : [first].filter ((query types).wants 0) = [first] := by
      rw [List.filter_cons_of_pos hwants, List.filter_nil]
    show [first] <+: [first].filter ((query types).wants 0)
    exact hfilter.symm ▸ List.prefix_rfl

/-- Whether a client has returned with a number of events. -/
def returned (n : ℕ) : Option State → Bool
  | some ⟨_, ⟨⟨_, _, yielded⟩, _, false, .returned⟩⟩ => yielded.length = n
  | _ => false

theorem returned_eq {n : ℕ} {r : Option State} (h : returned n r) :
    ∃ s, r = some s ∧ s.client.stand = .returned ∧ s.client.recovered = false ∧ s.client.progress.yielded.length = n := by
  unfold returned at h
  split at h
  · exact ⟨_, rfl, rfl, rfl, of_decide_eq_true h⟩
  · cases h

end Away

/-- A client that does not wait for the terminal event is told by the reading of the run. -/
theorem following_exact_iff_closed : ∃ s,
    (Away.query (some ["run.phase_changed.v1"])).step
      ((Away.query (some ["run.phase_changed.v1"])).opened [Away.first] false) (Away.turn .closed) = some s ∧
    s.client.stand = .returned ∧ s.client.progress.yielded.length = 1 ∧
    (Away.query (some ["run.phase_changed.v1"])).Exact 0 s := by
  have hreturned : Away.returned 1 ((Away.query (some ["run.phase_changed.v1"])).step
      ((Away.query (some ["run.phase_changed.v1"])).opened [Away.first] false) (Away.turn .closed)) := by decide +kernel
  obtain ⟨s, hstep, hstand, hrecovered, hlength⟩ := Away.returned_eq hreturned
  refine ⟨s, hstep, hstand, hlength, ?_⟩
  have hsound : Sound [Away.first] := Sound.append_left (show Sound ([Away.first] ++ [Away.last]) from Away.sound)
  refine ((following_exact_iff (q := Away.query (some ["run.phase_changed.v1"])) false hsound).2 [] _ _ s (.nil _)
    (Away.serves _ (by decide) .closed) hstep hstand hrecovered).mpr (.inr ?_)
  refine ⟨_, _, _, [.event Away.first], [], rfl, rfl, ?_, ?_⟩
  · simp [Item.frame]
  · rfl

/-- The connection is lost after the first event, the run completes, and the client returns
without the event of its completion. -/
theorem missed_completion : ∃ q s, Sound [Away.first] ∧
    q.Serves (q.opened [Away.first] false) (Away.turn .lost) ∧
    Following.step q (q.opened [Away.first] false) (Away.turn .lost) = some s ∧
    s.client.stand = .returned ∧ s.client.recovered = false ∧ ¬ q.Exact (q.start [Away.first]) s := by
  have hreturned : Away.returned 1 ((Away.query none).step ((Away.query none).opened [Away.first] false)
      (Away.turn .lost)) := by decide +kernel
  obtain ⟨s, hstep, hstand, hrecovered, hlength⟩ := Away.returned_eq hreturned
  refine ⟨Away.query none, s, Sound.append_left (show Sound ([Away.first] ++ [Away.last]) from Away.sound), Away.serves none rfl .lost, hstep, hstand,
    hrecovered, fun hexact => ?_⟩
  have hevents : s.events = [Away.first, Away.last] := by
    unfold Following.step at hstep
    split at hstep
    · cases hstep
      rfl
    · cases hstep
  rw [Following.Exact, hevents] at hexact
  rw [hexact, List.length_map] at hlength
  exact absurd hlength (by decide)

end AutomlApi.Streams
