import AutomlApi.Library.PyValues
import AutomlApi.Library.Checked
import AutomlApi.Library.Walking

/-! `iter_outputs` and `iter_run_events` of the SDK, against any sequence of replies. Both
follow the cursors of the pages, keep what they have not seen, and take a cursor that they
have followed before for a fault; `iter_outputs` starts over where its cursor has expired. -/

namespace AutomlApi.Sdk

open Walking (Walk Walks)
open PyValue (lookup truthy)

abbrev Fields := Dict String PyValue

inductive Failure where
  | value (message : String)
  | protocol (message : String)
  | expired
  | api (status : ℕ) (message : String)
  | transport (message : String)

/-- What a request comes to; `expired` is the error that its loop can recover from. -/
inductive Reply where
  | expired
  | failed (e : Failure)
  | page (p : Fields)

/-! ### Reading a page -/

/-- `_required_mapping`. -/
def requiredMapping (value : Fields) (key context : String) : Except Failure Fields :=
  match lookup value key with
  | .dict fields => .ok fields
  | _ => .error (.protocol s!"{context} is missing object field '{key}'")

/-- `_required_string`. -/
def requiredString (value : Fields) (key context : String) : Except Failure String :=
  match lookup value key with
  | .scalar (.str s) =>
    if s = "" then .error (.protocol s!"{context} is missing string field '{key}'") else .ok s
  | _ => .error (.protocol s!"{context} is missing string field '{key}'")

/-- `_non_negative_int`. -/
def nonNegativeInt (value : PyValue) (field : String) : Except Failure ℕ :=
  match value with
  | .scalar (.int (.ofNat n)) => .ok n
  | _ => .error (.protocol s!"API response contains invalid {field}")

def objects (context : String) : List PyValue → Except Failure (List Fields)
  | [] => .ok []
  | .dict fields :: rest => (objects context rest).map (fields :: ·)
  | _ :: _ => .error (.protocol s!"{context} page contains a non-object item")

/-- `_page_items`. -/
def pageItems (page : Fields) (context : String) : Except Failure (List Fields) :=
  match lookup page "items" with
  | .list items => objects context items
  | _ => .error (.protocol s!"{context} page is missing an items array")

/-- `bool(page_meta.get("has_more", next_cursor is not None))`. -/
def hasMore (pageMeta : Fields) : Bool :=
  match pageMeta.get "has_more", lookup pageMeta "next_cursor" with
  | some value, _ => truthy value
  | none, .scalar .none => false
  | none, _ => true

/-- The cursor of the next page of outputs, if there is one. -/
def nextOutputs (priorCursors : List String) (page : Fields) : Except Failure (Option String) := do
  let pageMeta ← requiredMapping page "page" "output page"
  let nextCursor := lookup pageMeta "next_cursor"
  if !hasMore pageMeta || !truthy nextCursor then pure none
  else
    match nextCursor with
    | .scalar (.str c) =>
      if c ∈ priorCursors then throw (.protocol "Output pagination returned a repeated or invalid cursor")
      else pure (some c)
    | _ => throw (.protocol "Output pagination returned a repeated or invalid cursor")

/-- The cursor of the next page of events, if there is one. -/
def nextEvents (priorCursors : List String) (page : Fields) : Except Failure (Option String) :=
  match lookup page "next_cursor" with
  | .scalar .none => .ok none
  | .scalar (.str c) =>
    if c = "" then .error (.protocol "Event page returned an invalid next_cursor")
    else if c ∈ priorCursors then .error (.protocol "Event pagination returned a repeated cursor")
    else .ok (some c)
  | _ => .error (.protocol "Event page returned an invalid next_cursor")

/-! ### The loops -/

/-- The ids that were seen and the items that were kept. -/
structure Kept where
  seen : List String
  items : List Fields := []

/-- The items of a page, up to the first one without an id. -/
def Kept.collect (idField context : String) (k : Kept) : List Fields → Kept × Option Failure
  | [] => (k, none)
  | item :: rest =>
    match requiredString item idField context with
    | .error e => (k, some e)
    | .ok id =>
      if id ∈ k.seen then k.collect idField context rest
      else collect idField context ⟨id :: k.seen, k.items ++ [item]⟩ rest

inductive Stand where
  | asking
  | returned
  | raised (e : Failure)

structure Iteration where
  kept : Kept
  cursor : Option String := none
  priorCursors : List String := []
  restarts : ℕ := 0
  stand : Stand := .asking

/-- A collection: the id of its items, what a page and an item of it are called, and how a
page tells the next one. -/
structure Collection where
  idField : String
  context : String
  itemContext : String
  next : List String → Fields → Except Failure (Option String)

def outputs : Collection := ⟨"output_id", "outputs", "output", nextOutputs⟩

def events : Collection := ⟨"event_id", "events", "event", nextEvents⟩

namespace Iteration

def raise (s : Iteration) (e : Failure) : Iteration := { s with stand := .raised e }

/-- What was kept, and the next request or the end. -/
def goOn (s : Iteration) (kept : Kept) : Option String → Iteration
  | none => { s with kept := kept, stand := .returned }
  | some cursor => { s with kept := kept, cursor := some cursor, priorCursors := cursor :: s.priorCursors }

/-- The part of a loop from its items on. -/
def accept (c : Collection) (s : Iteration) (page : Fields) : Iteration :=
  match pageItems page c.context with
  | .error e => s.raise e
  | .ok items =>
    match s.kept.collect c.idField c.itemContext items with
    | (kept, some e) => { s with kept := kept, stand := .raised e }
    | (kept, none) =>
      match c.next s.priorCursors page with
      | .error e => { s with kept := kept, stand := .raised e }
      | .ok next => s.goOn kept next

/-- A turn of `iter_outputs`. -/
def outputsTurn (maxCursorRestarts : ℤ) (s : Iteration) (r : Reply) : Iteration :=
  match s.stand with
  | .asking =>
    match r with
    | .expired =>
      if maxCursorRestarts ≤ s.restarts then s.raise .expired
      else { s with restarts := s.restarts + 1, cursor := none, priorCursors := [] }
    | .failed e => s.raise e
    | .page p => s.accept outputs p
  | _ => s

end Iteration

/-- `iter_outputs` after its first `n` requests. What it has kept it has yielded. -/
def iterOutputs (maxCursorRestarts : ℤ) (replies : ℕ → Reply) : ℕ → Iteration
  | 0 =>
    if maxCursorRestarts < 0 then
      { kept := ⟨[], []⟩, stand := .raised (.value "max_cursor_restarts must be non-negative") }
    else { kept := ⟨[], []⟩ }
  | n + 1 => (iterOutputs maxCursorRestarts replies n).outputsTurn maxCursorRestarts (replies n)

/-- The arguments of `iter_run_events`, and the run as `_require_run` reads it. -/
structure EventQuery where
  afterSeq : Option ℤ
  seenEventIds : List String
  recoverExpired : Bool
  onRecovery : Fields → Except Failure Unit
  snapshot : Except Failure Fields

/-- `_collect_event_batch`, with its high watermark. -/
structure Batch extends Iteration where
  highWatermark : ℤ

/-- The recovery from an expired cursor. -/
def EventQuery.recover (q : EventQuery) : Except Failure ℕ := do
  let snapshot ← q.snapshot
  let highWatermark ← nonNegativeInt (lookup snapshot "snapshot_seq") "snapshot_seq"
  q.onRecovery snapshot
  pure highWatermark

def Batch.turn (q : EventQuery) (s : Batch) (r : Reply) : Batch :=
  match s.stand with
  | .asking =>
    match r with
    | .expired =>
      if q.recoverExpired then
        match q.recover with
        | .error e => { s with stand := .raised e }
        | .ok highWatermark => ⟨{ s.toIteration with stand := .returned }, highWatermark⟩
      else { s with stand := .raised .expired }
    | .failed e => { s with stand := .raised e }
    | .page p =>
      match nonNegativeInt (lookup p "high_watermark") "high_watermark" with
      | .error e => { s with stand := .raised e }
      | .ok pageHigh => ⟨s.toIteration.accept events p, max s.highWatermark pageHigh⟩
  | _ => s

/-- `_collect_event_batch` after its first `n` requests. -/
def collectEventBatch (q : EventQuery) (replies : ℕ → Reply) : ℕ → Batch
  | 0 => ⟨{ kept := ⟨q.seenEventIds, []⟩ }, q.afterSeq.getD 0⟩
  | n + 1 => (collectEventBatch q replies n).turn q (replies n)

/-- What `iter_run_events` has yielded: the batch, once it has it. -/
def Batch.yielded (s : Batch) : List Fields :=
  match s.stand with
  | .returned => s.kept.items
  | _ => []

/-! ### What is asked of the loops -/

/-- The id of an item. -/
def idOf (idField : String) (item : Fields) : Option String :=
  match lookup item idField with
  | .scalar (.str s) => some s
  | _ => none

def Iteration.walk (s : Iteration) : Option (Walk String) :=
  match s.stand with
  | .asking => some ⟨s.cursor, s.priorCursors, s.restarts⟩
  | _ => none

/-- The `next_cursor` that a page of outputs has. -/
def outputsCursor (p : Fields) : PyValue :=
  match lookup p "page" with
  | .dict pageMeta => lookup pageMeta "next_cursor"
  | _ => .scalar .none

def eventsCursor (p : Fields) : PyValue := lookup p "next_cursor"

/-- A page has these items, each with an id. -/
structure Carries (idField : String) (p : Fields) (items : List Fields) : Prop where
  listed : lookup p "items" = .list (items.map .dict)
  ids : ∀ item ∈ items, ∃ id, id ≠ "" ∧ lookup item idField = .scalar (.str id)

/-- The pages of a collection as its server makes them: which are the last, and which go on
to a cursor. -/
structure Wire where
  idField : String
  ends : Fields → Prop
  continues : Fields → String → Prop

def outputsWire : Wire where
  idField := "output_id"
  ends p := ∃ pageMeta : Fields, lookup p "page" = .dict pageMeta ∧
    (lookup pageMeta "next_cursor" = .scalar .none ∨ ∃ more, pageMeta.get "has_more" = some more ∧ truthy more = false)
  continues p c := c ≠ "" ∧ ∃ pageMeta : Fields, lookup p "page" = .dict pageMeta ∧
    lookup pageMeta "next_cursor" = .scalar (.str c) ∧ ∀ more, pageMeta.get "has_more" = some more → truthy more

def eventsWire : Wire where
  idField := "event_id"
  ends p := lookup p "next_cursor" = .scalar .none ∧ ∃ n : ℕ, lookup p "high_watermark" = .scalar (.int n)
  continues p c := c ≠ "" ∧ lookup p "next_cursor" = .scalar (.str c) ∧
    ∃ n : ℕ, lookup p "high_watermark" = .scalar (.int n)

/-- From the `n`-th reply on the pages are those of a window, each with a cursor of its own. -/
inductive Chain (w : Wire) (replies : ℕ → Reply) : ℕ → List String → List Fields → Prop
  | last {n : ℕ} {prior : List String} {p : Fields} {items : List Fields} (hreply : replies n = .page p)
    (hitems : Carries w.idField p items) (hends : w.ends p) : Chain w replies n prior items
  | next {n : ℕ} {prior : List String} {p : Fields} {items rest : List Fields} {c : String}
    (hreply : replies n = .page p) (hitems : Carries w.idField p items) (hcontinues : w.continues p c)
    (hfresh : c ∉ prior) (hrest : Chain w replies (n + 1) (c :: prior) rest) :
    Chain w replies n prior (items ++ rest)

/-- The cursor that the next request asks for, if there is one; the first page has none. -/
def Iteration.asks (s : Iteration) : Option (Option String) :=
  match s.stand with
  | .asking => some s.cursor
  | _ => none

/-- What an iteration promises, over every request it makes: where `s n` is the loop after `n`
replies and `yielded n` what it has yielded by then. -/
structure Iterates (w : Wire) (cursorOf : Fields → PyValue) (old : List String) (max : ℕ) (replies : ℕ → Reply)
    (s : ℕ → Iteration) (yielded : ℕ → List Fields) : Prop where
  once : ∀ n, ((yielded n).map (idOf w.idField)).Nodup ∧
    ∀ item ∈ yielded n, ∃ id, idOf w.idField item = some id ∧ id ∉ old
  fresh : ∀ m n c, m < n → (s m).asks = some (some c) → (s n).asks = some (some c) →
    ∃ k, m < k ∧ k ≤ n ∧ (s k).asks = some none
  repeated : ∀ m n c p, m ≤ n → (s m).asks = some (some c) → (∀ k, m < k → k ≤ n → (s k).asks ≠ some none) →
    (s n).stand = .asking → replies n = .page p → w.continues p c → ∃ e, (s (n + 1)).stand = .raised e
  restarts : ∀ n, Nat.count (fun k => (s k).asks = some none) n ≤ max + 1
  window : ∀ n window, (s n).asks = some none → Chain w replies n [] window →
    ∃ m, (s m).stand = .returned ∧ ∀ item ∈ window, ∃ id, idOf w.idField item = some id ∧
      (id ∈ old ∨ some id ∈ (yielded m).map (idOf w.idField))
  ends : ∀ cursors : Finset String, (∀ n p c, replies n = .page p → cursorOf p = .scalar (.str c) → c ∈ cursors) →
    ∃ n, (s n).stand ≠ .asking

/-! ### The kept items -/

section Kept

variable {idField context : String} {old : List String}

/-- What is kept has ids of its own, which with the old ones are those that were seen. -/
structure Kept.Sound (idField : String) (old : List String) (k : Kept) : Prop where
  named : ∀ item ∈ k.items, ∃ id, idOf idField item = some id ∧ id ∉ old
  nodup : (k.items.map (idOf idField)).Nodup
  seen : ∀ id, id ∈ k.seen ↔ id ∈ old ∨ some id ∈ k.items.map (idOf idField)

theorem idOf_requiredString {item : Fields} {id : String} (h : requiredString item idField context = .ok id) :
    idOf idField item = some id := by
  unfold requiredString at h
  unfold idOf
  split at h
  · split at h
    · cases h
    · cases h
      rfl
  · cases h

theorem collect_sound (context : String) {k : Kept} (h : k.Sound idField old) (items : List Fields) :
    (k.collect idField context items).1.Sound idField old := by
  induction items generalizing k with
  | nil => exact h
  | cons item items ih =>
    unfold Kept.collect
    split
    · exact h
    · rename_i id hid
      have hidOf := idOf_requiredString hid
      split
      · exact ih h
      · rename_i hnew
        refine ih ⟨?_, ?_, ?_⟩
        · intro item' hitem'
          rcases List.mem_append.mp hitem' with hitem' | hitem'
          · exact h.named item' hitem'
          · cases List.mem_singleton.mp hitem'
            exact ⟨id, hidOf, fun hold => hnew ((h.seen id).mpr (.inl hold))⟩
        · rw [List.map_append, List.map_singleton, hidOf]
          refine List.nodup_append.mpr ⟨h.nodup, List.nodup_singleton _, fun a ha b hb heq => ?_⟩
          cases List.mem_singleton.mp hb
          exact hnew ((h.seen id).mpr (.inr (heq ▸ ha)))
        · intro id'
          have hseen := h.seen id'
          simp only [List.mem_cons, List.map_append, List.map_singleton, hidOf, List.mem_append, Option.some.injEq,
            hseen]
          tauto

theorem collect_mono (k : Kept) (items : List Fields) : k.seen ⊆ (k.collect idField context items).1.seen := by
  induction items generalizing k with
  | nil => exact List.Subset.refl _
  | cons item items ih =>
    unfold Kept.collect
    split
    · exact List.Subset.refl _
    · split
      · exact ih k
      · exact fun id hid => ih _ (List.mem_cons_of_mem _ hid)

theorem collect_named (context : String) (k : Kept) {items : List Fields}
    (h : ∀ item ∈ items, ∃ id, id ≠ "" ∧ lookup item idField = .scalar (.str id)) :
    (k.collect idField context items).2 = none ∧
      ∀ item ∈ items, ∃ id ∈ (k.collect idField context items).1.seen, idOf idField item = some id := by
  induction items generalizing k with
  | nil => exact ⟨rfl, fun item hitem => absurd hitem List.not_mem_nil⟩
  | cons item items ih =>
    obtain ⟨⟨id, hne, hlookup⟩, hitems⟩ := List.forall_mem_cons.mp h
    have hid : requiredString item idField context = .ok id := by
      rw [requiredString, hlookup]
      exact if_neg hne
    unfold Kept.collect
    rw [hid]
    by_cases hseen : id ∈ k.seen
    · simp only [hseen, if_true]
      obtain ⟨hnone, hall⟩ := ih k hitems
      exact ⟨hnone, List.forall_mem_cons.mpr ⟨⟨id, collect_mono k items hseen, idOf_requiredString hid⟩, hall⟩⟩
    · simp only [hseen, if_false]
      obtain ⟨hnone, hall⟩ := ih ⟨id :: k.seen, k.items ++ [item]⟩ hitems
      exact ⟨hnone, List.forall_mem_cons.mpr
        ⟨⟨id, collect_mono _ items List.mem_cons_self, idOf_requiredString hid⟩, hall⟩⟩

end Kept

/-! ### A turn -/

theorem requiredMapping_eq_ok {value fields : Fields} {key context : String} :
    requiredMapping value key context = .ok fields ↔ lookup value key = .dict fields := by
  unfold requiredMapping
  split
  · rename_i found hlookup
    rw [hlookup, Except.ok.injEq, PyValue.dict.injEq]
  · rename_i hnone
    exact ⟨fun h => (nomatch h), fun h => absurd h (hnone fields)⟩

/-- The outputs never go on to a cursor that was followed before, and no more do the events. -/
theorem nextOutputs_some {prior : List String} {p : Fields} {c : String} (h : nextOutputs prior p = .ok (some c)) :
    c ∉ prior ∧ outputsCursor p = .scalar (.str c) := by
  obtain ⟨pageMeta, hmeta, h⟩ := except_bind_eq_ok h
  have hpage : outputsCursor p = lookup pageMeta "next_cursor" := by
    rw [outputsCursor, requiredMapping_eq_ok.mp hmeta]
  rw [hpage]
  dsimp only at h
  split_ifs at h
  · cases h
  · split at h
    · rename_i hlookup
      split_ifs at h with hprior
      cases h
      exact ⟨hprior, hlookup⟩
    · cases h

theorem nextEvents_some {prior : List String} {p : Fields} {c : String} (h : nextEvents prior p = .ok (some c)) :
    c ∉ prior ∧ eventsCursor p = .scalar (.str c) := by
  unfold nextEvents at h
  split at h
  · cases h
  · rename_i hlookup
    split_ifs at h with hempty hprior
    cases h
    exact ⟨hprior, hlookup⟩
  · cases h

theorem accept_kept (c : Collection) {s : Iteration} {old : List String} (h : s.kept.Sound c.idField old) (p : Fields) :
    (s.accept c p).kept.Sound c.idField old := by
  unfold Iteration.accept
  split
  · exact h
  · rename_i items hitems
    have hsound := collect_sound c.itemContext h items
    split
    · rename_i kept e hcollect
      rwa [hcollect] at hsound
    · rename_i kept hcollect
      rw [hcollect] at hsound
      split
      · exact hsound
      · rename_i next _
        cases next <;> exact hsound

/-- The page after which a loop asks again has told a new cursor. -/
theorem accept_walk (c : Collection) {s : Iteration} (hs : s.stand = .asking) {p : Fields} {w : Walk String}
    (h : (s.accept c p).walk = some w) :
    ∃ cursor, c.next s.priorCursors p = .ok (some cursor) ∧
      w = ⟨some cursor, cursor :: s.priorCursors, s.restarts⟩ := by
  unfold Iteration.accept at h
  split at h
  · cases h
  · split at h
    · cases h
    · split at h
      · cases h
      · rename_i next hnext
        cases next with
        | none => cases h
        | some cursor =>
          simp only [Iteration.goOn, Iteration.walk, hs, Option.some.injEq] at h
          exact ⟨cursor, hnext, h.symm⟩

/-- The page of a chain is kept as a whole. -/
theorem accept_of_next {c : Collection} {s : Iteration} {p : Fields} {items : List Fields} {next : Option String}
    (hitems : Carries c.idField p items) (hnext : c.next s.priorCursors p = .ok next) :
    ∃ kept : Kept, s.kept.seen ⊆ kept.seen ∧ (∀ item ∈ items, ∃ id ∈ kept.seen, idOf c.idField item = some id) ∧
      s.accept c p = s.goOn kept next := by
  have hobjects : ∀ xs : List Fields, objects c.context (xs.map .dict) = .ok xs := by
    intro xs
    induction xs with
    | nil => rfl
    | cons x xs ih => rw [List.map_cons, objects, ih]; rfl
  have hpage : pageItems p c.context = .ok items := by
    rw [pageItems, hitems.listed]
    exact hobjects items
  obtain ⟨hnone, hall⟩ := collect_named c.itemContext s.kept hitems.ids
  refine ⟨(s.kept.collect c.idField c.itemContext items).1, collect_mono _ _, hall, ?_⟩
  have hcollect : s.kept.collect c.idField c.itemContext items =
      ((s.kept.collect c.idField c.itemContext items).1, none) := Prod.ext rfl hnone
  unfold Iteration.accept
  rw [hpage]
  dsimp only
  rw [hcollect]
  dsimp only
  rw [hnext]

/-! ### Loops -/

/-- What a loop has in common: it starts with nothing kept, a page is accepted, and else it
asks for the first page again or ends. -/
structure Loop (c : Collection) (old : List String) (max : ℕ) (replies : ℕ → Reply) (s : ℕ → Iteration) : Prop where
  start : (s 0).kept = ⟨old, []⟩ ∧ ∀ w, (s 0).walk = some w → w = {}
  ended : ∀ n, (s n).stand ≠ .asking → s (n + 1) = s n
  turn : ∀ n, (s n).stand = .asking →
    (∃ p, replies n = .page p ∧ s (n + 1) = (s n).accept c p) ∨
      ((s (n + 1)).kept = (s n).kept ∧ ((s (n + 1)).walk = none ∨
        (s n).restarts < max ∧ (s (n + 1)).walk = some ⟨none, [], (s n).restarts + 1⟩))

section Loop

variable {c : Collection} {old : List String} {max : ℕ} {replies : ℕ → Reply} {s : ℕ → Iteration}

theorem walk_eq_some {s : Iteration} {w : Walk String} (h : s.walk = some w) :
    s.stand = .asking ∧ w = ⟨s.cursor, s.priorCursors, s.restarts⟩ := by
  unfold Iteration.walk at h
  split at h
  · rename_i hstand
    cases h
    exact ⟨hstand, rfl⟩
  · cases h

theorem walk_of_asking {s : Iteration} (h : s.stand = .asking) :
    s.walk = some ⟨s.cursor, s.priorCursors, s.restarts⟩ := by
  rw [Iteration.walk, h]

theorem walk_eq_none {s : Iteration} : s.walk = none ↔ s.stand ≠ .asking := by
  unfold Iteration.walk
  split
  · rename_i hstand
    exact ⟨fun h => (nomatch h), fun h => absurd hstand h⟩
  · rename_i hstand
    exact ⟨fun _ => hstand, fun _ => rfl⟩

theorem Loop.sound (h : Loop c old max replies s) (n : ℕ) : (s n).kept.Sound c.idField old := by
  induction n with
  | zero =>
    rw [h.start.1]
    exact ⟨fun item hitem => absurd hitem List.not_mem_nil, List.nodup_nil, fun id => by simp⟩
  | succ n ih =>
    by_cases hstand : (s n).stand = .asking
    · rcases h.turn n hstand with ⟨p, -, hnext⟩ | ⟨hkept, -⟩
      · rw [hnext]
        exact accept_kept c ih p
      · rwa [hkept]
    · rwa [h.ended n hstand]

theorem Loop.walks (h : Loop c old max replies s)
    (hfresh : ∀ {prior p cursor}, c.next prior p = .ok (some cursor) → cursor ∉ prior) :
    Walks max fun n => (s n).walk where
  start := h.start.2
  step n w hw := by
    by_cases hstand : (s n).stand = .asking
    · refine ⟨_, walk_of_asking hstand, ?_⟩
      rcases h.turn n hstand with ⟨p, -, hnext⟩ | ⟨-, hnone | ⟨hlt, hsome⟩⟩
      · rw [hnext] at hw
        obtain ⟨cursor, hcursor, rfl⟩ := accept_walk c hstand hw
        exact .next (hfresh hcursor)
      · cases hnone.symm.trans hw
      · cases hsome.symm.trans hw
        exact .restart hlt
    · rw [h.ended n hstand] at hw
      exact absurd (walk_eq_some hw).1 hstand

/-- Each cursor that is asked for was told by a page. -/
theorem Loop.told (h : Loop c old max replies s) {n : ℕ} {w : Walk String} {cursor : String}
    (hw : (s n).walk = some w) (hcursor : w.cursor = some cursor) :
    ∃ m p prior, replies m = .page p ∧ c.next prior p = .ok (some cursor) := by
  cases n with
  | zero =>
    rw [h.start.2 w hw] at hcursor
    cases hcursor
  | succ n =>
    by_cases hstand : (s n).stand = .asking
    · rcases h.turn n hstand with ⟨p, hp, hnext⟩ | ⟨-, hnone | ⟨-, hsome⟩⟩
      · rw [hnext] at hw
        obtain ⟨cursor', hcursor', rfl⟩ := accept_walk c hstand hw
        cases hcursor
        exact ⟨n, p, _, hp, hcursor'⟩
      · cases hnone.symm.trans hw
      · cases hsome.symm.trans hw
        cases hcursor
    · rw [h.ended n hstand] at hw
      exact absurd (walk_eq_some hw).1 hstand

/-- A loop reads the pages of its server as they are meant. -/
structure Reads (c : Collection) (w : Wire) (replies : ℕ → Reply) (s : ℕ → Iteration) : Prop where
  idField : w.idField = c.idField
  page : ∀ n p, (s n).stand = .asking → replies n = .page p → (w.ends p ∨ ∃ cursor, w.continues p cursor) →
    s (n + 1) = (s n).accept c p
  ends : ∀ prior p, w.ends p → c.next prior p = .ok none
  continues : ∀ prior p cursor, w.continues p cursor → cursor ∉ prior → c.next prior p = .ok (some cursor)
  repeated : ∀ prior p cursor, w.continues p cursor → cursor ∈ prior → ∃ e, c.next prior p = .error e

/-- A loop that asks for the first page of a chain returns, and has seen its items. -/
theorem Reads.returns {w : Wire} (h : Reads c w replies s) {n : ℕ} {prior : List String} {window : List Fields}
    (hchain : Chain w replies n prior window) (hstand : (s n).stand = .asking) (hprior : (s n).priorCursors = prior) :
    ∃ m, (s m).stand = .returned ∧ (s n).kept.seen ⊆ (s m).kept.seen ∧
      ∀ item ∈ window, ∃ id ∈ (s m).kept.seen, idOf c.idField item = some id := by
  induction hchain with
  | @last n prior p items hreply hitems hends =>
    have hnext := h.ends (s n).priorCursors p hends
    obtain ⟨kept, hmono, hall, haccept⟩ := accept_of_next (h.idField ▸ hitems) hnext
    have hturn := (h.page n p hstand hreply (.inl hends)).trans haccept
    refine ⟨n + 1, ?_, ?_, ?_⟩ <;> rw [hturn]
    · rfl
    · exact hmono
    · exact hall
  | @next n prior p items rest cursor hreply hitems hcontinues hfresh hrest ih =>
    have hnext := h.continues (s n).priorCursors p cursor hcontinues (hprior ▸ hfresh)
    obtain ⟨kept, hmono, hall, haccept⟩ := accept_of_next (h.idField ▸ hitems) hnext
    have hturn := (h.page n p hstand hreply (.inr ⟨cursor, hcontinues⟩)).trans haccept
    have hprior' : (s (n + 1)).priorCursors = cursor :: prior := by
      rw [hturn, ← hprior]
      rfl
    have hkept : (s (n + 1)).kept = kept := by
      rw [hturn]
      rfl
    obtain ⟨m, hreturned, hseen, hwindow⟩ := ih (by rw [hturn]; exact hstand) hprior'
    rw [hkept] at hseen
    refine ⟨m, hreturned, fun id hid => hseen (hmono hid), fun item hitem => ?_⟩
    rcases List.mem_append.mp hitem with hitem | hitem
    · obtain ⟨id, hid, heq⟩ := hall item hitem
      exact ⟨id, hseen hid, heq⟩
    · exact hwindow item hitem

/-- A page that names a cursor which was followed before makes the loop raise, unless the page
is not taken for one that goes on. -/
theorem accept_repeated {s : Iteration} {p : Fields} (h : ∃ e, c.next s.priorCursors p = .error e) :
    ∃ e, (s.accept c p).stand = .raised e := by
  obtain ⟨e, he⟩ := h
  unfold Iteration.accept
  split
  · exact ⟨_, rfl⟩
  · split
    · exact ⟨_, rfl⟩
    · rw [he]
      exact ⟨_, rfl⟩

theorem asks_eq_some {s : Iteration} {cursor : Option String} (h : s.asks = some cursor) :
    s.stand = .asking ∧ s.cursor = cursor := by
  unfold Iteration.asks at h
  split at h
  · rename_i hstand
    exact ⟨hstand, Option.some.inj h⟩
  · cases h

theorem starts_iff {s : Iteration} : Walking.Starts s.walk ↔ s.asks = some none := by
  constructor
  · rintro ⟨w, hw, hnone⟩
    obtain ⟨hstand, rfl⟩ := walk_eq_some hw
    rw [Iteration.asks, hstand]
    exact congrArg some hnone
  · intro h
    obtain ⟨hstand, hcursor⟩ := asks_eq_some h
    exact ⟨_, walk_of_asking hstand, hcursor⟩

theorem Loop.iterates {w : Wire} {cursorOf : Fields → PyValue} {yielded : ℕ → List Fields}
    (h : Loop c old max replies s) (hreads : Reads c w replies s)
    (hcursor : ∀ {prior p cursor}, c.next prior p = .ok (some cursor) →
      cursor ∉ prior ∧ cursorOf p = .scalar (.str cursor))
    (hyielded : ∀ n, yielded n = (s n).kept.items ∨ yielded n = [] ∧ (s n).stand ≠ .returned) :
    Iterates w cursorOf old max replies s yielded := by
  have hwalks := h.walks fun hnext => (hcursor hnext).1
  have hfollowed : ∀ m n c, m ≤ n → (s m).asks = some (some c) → (∀ k, m < k → k ≤ n → (s k).asks ≠ some none) →
      (s n).stand = .asking → c ∈ (s n).priorCursors := by
    intro m n c hmn hm hon hn
    obtain ⟨hstand, hasked⟩ := asks_eq_some hm
    have hhead := (hwalks.tidy (walk_of_asking hstand)).head
    have hmem : c ∈ (s m).priorCursors := List.mem_of_head? (hhead.symm.trans hasked)
    exact Walking.prior_subset hwalks hmn (walk_of_asking hstand) (walk_of_asking hn)
      (fun k hk hk' => mt starts_iff.mp (hon k hk hk')) hmem
  refine ⟨fun n => ?_, fun m n c hmn hm hn => ?_, fun m n c p hmn hm hon hn hreply hcont => ?_, fun n => ?_,
    fun n window hn hchain => ?_, fun cursors hcursors => ?_⟩
  · have hsound := h.sound n
    rw [hreads.idField]
    rcases hyielded n with hitems | ⟨hnil, -⟩
    · rw [hitems]
      exact ⟨hsound.nodup, hsound.named⟩
    · rw [hnil]
      exact ⟨List.nodup_nil, fun item hitem => absurd hitem List.not_mem_nil⟩
  · by_contra hnone
    obtain ⟨hstand, hasked⟩ := asks_eq_some hm
    obtain ⟨hstand', hasked'⟩ := asks_eq_some hn
    refine Walking.cursor_ne hwalks hmn (walk_of_asking hstand) (walk_of_asking hstand') (fun k hk hk' hstarts => ?_)
      (hasked.trans hasked'.symm)
    exact hnone ⟨k, hk, hk', starts_iff.mp hstarts⟩
  · rw [hreads.page n p hn hreply (.inr ⟨c, hcont⟩)]
    exact accept_repeated (hreads.repeated _ p c hcont (hfollowed m n c hmn hm hon hn))
  · have hle := Walking.starts_le hwalks n
    have hcount : Nat.count (fun k => (s k).asks = some none) n = Walking.starts (fun k => (s k).walk) n := by
      unfold Walking.starts
      congr 1
      · exact funext fun k => propext starts_iff.symm
    rwa [hcount]
  · obtain ⟨hstand, hnone⟩ := asks_eq_some hn
    have htidy := hwalks.tidy (walk_of_asking hstand)
    have hprior : (s n).priorCursors = [] := by
      have hhead : (s n).cursor = (s n).priorCursors.head? := htidy.head
      rw [hnone] at hhead
      exact List.head?_eq_none_iff.mp hhead.symm
    obtain ⟨m, hreturned, -, hwindow⟩ := hreads.returns hchain hstand hprior
    refine ⟨m, hreturned, fun item hitem => ?_⟩
    obtain ⟨id, hid, hidOf⟩ := hwindow item hitem
    have hitems : yielded m = (s m).kept.items := (hyielded m).resolve_right fun hnil => hnil.2 hreturned
    rw [hreads.idField, hitems]
    exact ⟨id, hidOf, ((h.sound m).seen id).mp hid⟩
  · have hasked : ∀ n w cursor, (s n).walk = some w → w.cursor = some cursor → cursor ∈ cursors := by
      intro n w cursor hw hc
      obtain ⟨m, p, prior, hreply, hnext⟩ := h.told hw hc
      exact hcursors m p cursor hreply (hcursor hnext).2
    obtain ⟨n, -, hnone⟩ := Walking.ends hwalks hasked
    exact ⟨n, walk_eq_none.mp hnone⟩

end Loop

/-! ### Outputs -/

theorem loop_outputs (maxCursorRestarts : ℤ) (replies : ℕ → Reply) :
    Loop outputs [] maxCursorRestarts.toNat replies (iterOutputs maxCursorRestarts replies) where
  start := by
    unfold iterOutputs
    split
    · exact ⟨rfl, fun w hw => nomatch hw⟩
    · exact ⟨rfl, fun w hw => (Option.some.inj hw).symm⟩
  ended n hstand := by
    simp only [iterOutputs, Iteration.outputsTurn]
  turn n hstand := by
    simp only [iterOutputs, Iteration.outputsTurn, hstand]
    cases hreply : replies n with
    | page p => exact .inl ⟨p, rfl, rfl⟩
    | failed e => exact .inr ⟨rfl, .inl rfl⟩
    | expired =>
      dsimp only
      split
      · exact .inr ⟨rfl, .inl rfl⟩
      · exact .inr ⟨rfl, .inr ⟨by omega, rfl⟩⟩

/-- A page that goes on to a cursor is read so, unless the cursor was followed before. -/
theorem nextOutputs_continues {p : Fields} {c : String} (h : outputsWire.continues p c) (prior : List String) :
    nextOutputs prior p = if c ∈ prior then
      .error (.protocol "Output pagination returned a repeated or invalid cursor") else .ok (some c) := by
  obtain ⟨hne, pageMeta, hmeta, hnext, hmore⟩ := h
  have hhas : hasMore pageMeta = true := by
    unfold hasMore
    rw [hnext]
    split
    · exact hmore _ ‹_›
    · cases ‹PyValue.scalar (.str c) = _›
    · rfl
  have htruthy : truthy (.scalar (.str c)) = true := decide_eq_true hne
  have hgoes : ¬ (!true || !truthy (.scalar (.str c))) = true := by rw [htruthy]; decide
  rw [nextOutputs, requiredMapping_eq_ok.mpr hmeta, except_ok_bind, hnext, hhas]
  exact if_neg hgoes

theorem reads_outputs (maxCursorRestarts : ℤ) (replies : ℕ → Reply) :
    Reads outputs outputsWire replies (iterOutputs maxCursorRestarts replies) where
  idField := rfl
  page n p hstand hreply _ := by simp only [iterOutputs, Iteration.outputsTurn, hstand, hreply]
  ends prior p hends := by
    obtain ⟨pageMeta, hmeta, hlast⟩ := hends
    have hstop : (!hasMore pageMeta || !truthy (lookup pageMeta "next_cursor")) = true := by
      rcases hlast with hnone | ⟨more, hmore, hfalse⟩
      · rw [hnone]
        exact Bool.or_true _
      · have hhas : hasMore pageMeta = false := by
          rw [hasMore, hmore]
          exact hfalse
        rw [hhas]
        rfl
    show nextOutputs prior p = .ok none
    rw [nextOutputs, requiredMapping_eq_ok.mpr hmeta, except_ok_bind]
    exact if_pos hstop
  continues prior p c hcontinues hfresh := (nextOutputs_continues hcontinues prior).trans (if_neg hfresh)
  repeated prior p c hcontinues hmem := ⟨_, (nextOutputs_continues hcontinues prior).trans (if_pos hmem)⟩

/-! ### Events -/

theorem loop_events (q : EventQuery) (replies : ℕ → Reply) :
    Loop events q.seenEventIds 0 replies fun n => (collectEventBatch q replies n).toIteration where
  start := ⟨rfl, fun w hw => (Option.some.inj hw).symm⟩
  ended n hstand := by
    simp only [collectEventBatch, Batch.turn]
  turn n hstand := by
    simp only [collectEventBatch, Batch.turn, hstand]
    cases hreply : replies n with
    | failed e => exact .inr ⟨rfl, .inl rfl⟩
    | expired =>
      refine .inr ?_
      dsimp only
      split
      · split <;> exact ⟨rfl, .inl rfl⟩
      · exact ⟨rfl, .inl rfl⟩
    | page p =>
      dsimp only
      split
      · exact .inr ⟨rfl, .inl rfl⟩
      · exact .inl ⟨p, rfl, rfl⟩

theorem reads_events (q : EventQuery) (replies : ℕ → Reply) :
    Reads events eventsWire replies fun n => (collectEventBatch q replies n).toIteration where
  idField := rfl
  page n p hstand hreply hpage := by
    obtain ⟨h, hhigh⟩ : ∃ h : ℕ, lookup p "high_watermark" = .scalar (.int h) := by
      rcases hpage with ⟨-, hhigh⟩ | ⟨c, -, -, hhigh⟩ <;> exact hhigh
    have hread : nonNegativeInt (lookup p "high_watermark") "high_watermark" = .ok h := by
      rw [hhigh]
      rfl
    simp only [collectEventBatch, Batch.turn, hstand, hreply, hread]
  ends prior p hends := by
    show nextEvents prior p = .ok none
    rw [nextEvents, hends.1]
  continues prior p c hcontinues hfresh := by
    show nextEvents prior p = .ok (some c)
    rw [nextEvents, hcontinues.2.1]
    exact (if_neg hcontinues.1).trans (if_neg hfresh)
  repeated prior p c hcontinues hmem := by
    refine ⟨.protocol "Event pagination returned a repeated cursor", ?_⟩
    show nextEvents prior p = _
    rw [nextEvents, hcontinues.2.1]
    exact (if_neg hcontinues.1).trans (if_pos hmem)

/-- Both iterations of the SDK, against any replies: each id once, no cursor again before a
start, no more starts than allowed, the whole window of a chain, and an end. -/
theorem iterations_exact :
    (∀ (maxCursorRestarts : ℤ) (replies : ℕ → Reply),
      Iterates outputsWire outputsCursor [] maxCursorRestarts.toNat replies (iterOutputs maxCursorRestarts replies)
        fun n => (iterOutputs maxCursorRestarts replies n).kept.items) ∧
    ∀ (q : EventQuery) (replies : ℕ → Reply),
      Iterates eventsWire eventsCursor q.seenEventIds 0 replies
        (fun n => (collectEventBatch q replies n).toIteration) fun n => (collectEventBatch q replies n).yielded := by
  refine ⟨fun maxCursorRestarts replies => ?_, fun q replies => ?_⟩
  · exact (loop_outputs maxCursorRestarts replies).iterates (reads_outputs maxCursorRestarts replies)
      nextOutputs_some fun n => .inl rfl
  · refine (loop_events q replies).iterates (reads_events q replies) nextEvents_some fun n => ?_
    unfold Batch.yielded
    split
    · exact .inl rfl
    · exact .inr ⟨rfl, ‹_›⟩

end AutomlApi.Sdk
