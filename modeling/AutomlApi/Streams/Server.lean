import Mathlib.Data.List.Infix
import AutomlApi.Streams.Events

/-! The event stream of a run. The generator reads the events after its position,
yields them one by one, and waits for more when there are none, until it finds the run
TERMINAL with nothing left. Each of its readings is apart from the next, and anything
may happen to the store in between. -/

namespace AutomlApi.Streams

open Runs (Run Free)
open Store (Fields Value Fault Memory SqliteStore SetOrder logOf Numbered Sequenced)

/-- What a client has asked for. -/
structure Query where
  runId : String
  tenantId : String
  afterSeq : ℕ
  eventTypes : Option (List String)

inductive Yield where
  | event (event : Fields)
  | heartbeat

/-- Where `sse_stream` stands: at the top of its loop; with events whose old failures
wait for the result of the run; with the rest of the events to yield; before the check
of the run; in `wait_for_events`; before a heartbeat; or at its end. -/
inductive Control where
  | reading
  | judging (events : List Fields)
  | emitting (events : List Fields)
  | checking
  | waiting
  | beating
  | returned
  | raised

structure Stream where
  position : ℤ
  yielded : List Yield
  control : Control

/-- The events among what has been yielded. -/
def Stream.emitted (s : Stream) : List Fields :=
  s.yielded.filterMap fun
    | .event event => some event
    | .heartbeat => none

/-- A stream whose body has just been started. -/
def opened (q : Query) : Stream := ⟨q.afterSeq, [], .reading⟩

/-- What raises ends the stream. -/
def Stream.orRaise {α : Type} (s : Stream) (r : Except Fault α) (k : α → Stream) : Stream :=
  match r with
  | .ok a => k a
  | .error _ => { s with control := .raised }

/-- One turn of the loop over the events. -/
def Stream.emit (q : Query) (s : Stream) (event : Fields) (rest : List Fields) : Stream :=
  match event.get "seq", event.get "type" with
  | some seq, some type =>
    s.orRaise (Store.toInt seq) fun seq =>
      let next := { s with position := max s.position seq, control := .emitting rest }
      if q.eventTypes.isSome && !Store.hashable type then { s with control := .raised }
      else if !allowed q.eventTypes event then next
      else if Value.plainFields event then { next with yielded := s.yielded ++ [.event event] }
      else { s with control := .raised }
  | _, _ => { s with control := .raised }

/-- `snapshot["status"] == "TERMINAL" and position >= snapshot["snapshot_seq"]`. -/
def finished (position : ℤ) (run : Fields) : Except Fault Bool :=
  match run.get "status" with
  | none => .error (.key "status")
  | some status =>
    if status.equal (.str "TERMINAL") then
      match run.get "snapshot_seq" with
      | some (.int seq) => .ok (decide (position ≥ seq))
      | some _ => .error (.type "not supported between instances")
      | none => .error (.key "snapshot_seq")
    else .ok false

/-- The stream goes on to its next reading or yield. -/
def Stream.proceed (q : Query) (m : Memory) (s : Stream) : Option Stream :=
  match s.control with
  | .reading => some <| s.orRaise (getEvents q.runId s.position none none m) fun events =>
      if events.isEmpty then { s with control := .checking }
      else s.orRaise (events.mapM legacyFailure) fun legacy =>
        { s with control := if legacy.any id then .judging events else .emitting events }
  | .judging events => some <| s.orRaise (getResult q.runId m) fun result =>
      s.orRaise (resultRetriable result) fun retriable =>
        s.orRaise (events.mapM (shown retriable)) fun events => { s with control := .emitting events }
  | .emitting [] => some { s with control := .reading }
  | .emitting (event :: rest) => some (s.emit q event rest)
  | .checking => some <| s.orRaise (getRun q.tenantId q.runId m) fun run =>
      s.orRaise (finished s.position run) fun done => { s with control := if done then .returned else .waiting }
  | .waiting =>
    match getEvents q.runId s.position none none m with
    | .ok [] => none
    | r => some (s.orRaise r fun _ => { s with control := .reading })
  | .beating => some <| s.orRaise (getRun q.tenantId q.runId m) fun _ =>
      { s with yielded := s.yielded ++ [.heartbeat], control := .reading }
  | .returned | .raised => none

/-- What happens to a stream: it goes on; it asks again for the run, as it does every 30
seconds; its wait times out; its response is cancelled. -/
inductive Move where
  | proceed | authorize | timeout | cancel

def Stream.step (q : Query) (m : Memory) (s : Stream) : Move → Option Stream
  | .proceed => s.proceed q m
  | .authorize =>
    match s.control with
    | .reading | .emitting _ => some <| s.orRaise (getRun q.tenantId q.runId m) fun _ => s
    | _ => none
  | .timeout =>
    match s.control with
    | .waiting => some { s with control := .beating }
    | _ => none
  | .cancel =>
    match s.control with
    | .returned | .raised => none
    | _ => some { s with control := .raised }

/-- A stream beside its store. -/
inductive Label where
  | store (e : Store.Event)
  | stream (move : Move)

def step (o : SetOrder) (q : Query) : SqliteStore × Stream → Label → Option (SqliteStore × Stream)
  | (s, x), .store e => some (s.step o e, x)
  | (s, x), .stream move => (x.step q s.memory move).map fun x => (s, x)

/-- The store goes on in one process: a restart ends the stream. -/
def Alongside : SqliteStore × Stream → Label → Prop
  | _, .store e => e.within fun _ => true
  | _, .stream _ => True

instance : ∀ s l, Decidable (Alongside s l)
  | _, .store _ => inferInstanceAs (Decidable (_ = true))
  | _, .stream _ => inferInstanceAs (Decidable True)

/-! ### What the stream should yield -/

/-- The events that the client has asked for. -/
def expected (q : Query) (m : Memory) : List Fields :=
  ((logOf m q.runId).filter fun event => decide ((q.afterSeq : ℤ) < seqOf event)).filter (allowed q.eventTypes)

/-- The stream has yielded a beginning of what it should, as the events are shown. -/
def Exact (q : Query) (m : Memory) (x : Stream) : Prop :=
  ∃ events, events <+: expected q m ∧ List.Forall₂ Shows events x.emitted

/-- The run is TERMINAL and the stream has yielded every event up to the run's last one. -/
def Complete (q : Query) (m : Memory) (x : Stream) : Prop :=
  ∃ run last, m.runs.get q.runId = some run ∧ ((run.get "status").getD .null).equal (.str "TERMINAL") ∧
    run.get "snapshot_seq" = some (.int last) ∧
    List.Forall₂ Shows ((expected q m).filter fun event => decide (seqOf event ≤ last)) x.emitted

/-! ### The invariant -/

/-- The events at hand are those that follow the position. -/
def Pending (log : List Fields) (p : ℕ) : Control → Prop
  | .judging events => events <+: log.drop p
  | .emitting events => ∃ es, es <+: log.drop p ∧ List.Forall₂ Shows es events
  | _ => True

structure Follows (q : Query) (log : List Fields) (x : Stream) (p : ℕ) : Prop where
  position : x.position = p
  start : q.afterSeq ≤ p
  bounded : p ≤ max q.afterSeq log.length
  emitted : List.Forall₂ Shows (((log.take p).drop q.afterSeq).filter (allowed q.eventTypes)) x.emitted
  pending : Pending log p x.control

theorem follows_opened (q : Query) (log : List Fields) : Follows q log (opened q) q.afterSeq where
  position := rfl
  start := le_refl _
  bounded := le_max_left _ _
  emitted := by
    rw [List.drop_eq_nil_of_le (by simp)]
    exact .nil
  pending := trivial

section Steps

variable {q : Query} {log : List Fields} {x : Stream} {p : ℕ}

theorem Follows.at (h : Follows q log x p) {c : Control} (hc : Pending log p c) :
    Follows q log { x with control := c } p :=
  ⟨h.position, h.start, h.bounded, h.emitted, hc⟩

theorem Follows.orRaise {α : Type} (h : Follows q log x p) {r : Except Fault α} {k : α → Stream}
    (hk : ∀ a, r = .ok a → ∃ p', Follows q log (k a) p') : ∃ p', Follows q log (x.orRaise r k) p' := by
  cases r with
  | ok a => exact hk a rfl
  | error fault => exact ⟨p, h.at trivial⟩

/-- What is appended to the log comes after the position, or before the start. -/
theorem Follows.grow (h : Follows q log x p) {log' : List Fields} (hlog : log <+: log') :
    Follows q log' x p := by
  obtain ⟨more, rfl⟩ := hlog
  have hdrop : log.drop p <+: (log ++ more).drop p := by
    rw [List.drop_append]
    exact List.prefix_append _ _
  refine ⟨h.position, h.start, h.bounded.trans ?_, ?_, ?_⟩
  · rw [List.length_append]
    omega
  · have hemitted := h.emitted
    have hbounded := h.bounded
    by_cases hp : p ≤ log.length
    · rwa [List.take_append_of_le_length hp]
    · have hstart : p ≤ q.afterSeq := by omega
      have hnil : ∀ l : List Fields, (l.take p).drop q.afterSeq = [] := fun l =>
        List.drop_eq_nil_of_le ((List.length_take_le p l).trans hstart)
      rw [hnil] at hemitted ⊢
      exact hemitted
  · have hpending := h.pending
    cases hc : x.control with
    | judging events =>
      rw [hc] at hpending
      exact hpending.trans hdrop
    | emitting events =>
      rw [hc] at hpending
      obtain ⟨es, hes, hshows⟩ := hpending
      exact ⟨es, hes.trans hdrop, hshows⟩
    | _ => trivial

/-- The next event of the log moves the position on, whether it is yielded or passed over. -/
theorem Follows.emit (hn : Numbered log) (h : Follows q log x p) {event : Fields} {rest : List Fields}
    (hc : x.control = .emitting (event :: rest)) : ∃ p', Follows q log (x.emit q event rest) p' := by
  have hpending := h.pending
  rw [hc] at hpending
  obtain ⟨es, hes, hshows⟩ := hpending
  cases hshows with
  | @cons e _ es _ hshow hshows =>
  have hget : log[p]? = some e := by
    obtain ⟨more, hmore⟩ := hes
    rw [← List.head?_drop, ← hmore]
    rfl
  obtain ⟨hlt, -⟩ := List.getElem?_eq_some_iff.mp hget
  have hdrop : log.drop p = e :: log.drop (p + 1) := List.drop_eq_getElem?_toList_append.trans (by rw [hget]; rfl)
  have hseq : event.get "seq" = some (.int (p + 1)) := (hshow.get (by decide)).trans (hn p e hget)
  have hposition : max x.position (p + 1 : ℤ) = (p + 1 : ℕ) := by
    rw [h.position]
    omega
  have htail : ∃ es, es <+: log.drop (p + 1) ∧ List.Forall₂ Shows es rest := by
    rw [hdrop] at hes
    exact ⟨es, (List.cons_prefix_cons.mp hes).2, hshows⟩
  have htake : (log.take (p + 1)).drop q.afterSeq = (log.take p).drop q.afterSeq ++ [e] := by
    rw [List.take_add_one, hget, List.drop_append_of_le_length]
    · rfl
    · rw [List.length_take]
      have := h.start
      omega
  unfold Stream.emit
  rw [hseq]
  cases htype : event.get "type" with
  | none => exact ⟨p, h.at trivial⟩
  | some type =>
    dsimp only [Stream.orRaise, Store.toInt]
    split
    · exact ⟨p, h.at trivial⟩
    have hbounded : p + 1 ≤ max q.afterSeq log.length := by omega
    split
    · rename_i hno
      refine ⟨p + 1, hposition, h.start.trans (Nat.le_succ p), hbounded, ?_, htail⟩
      have hskip : allowed q.eventTypes e = false := by
        rw [← hshow.allowed]
        simpa using hno
      rw [htake, List.filter_append, List.filter_cons_of_neg (by simp [hskip]), List.filter_nil, List.append_nil]
      exact h.emitted
    · rename_i hyes
      split
      · refine ⟨p + 1, hposition, h.start.trans (Nat.le_succ p), hbounded, ?_, htail⟩
        have htakes : allowed q.eventTypes e = true := by
          rw [← hshow.allowed]
          simpa using hyes
        rw [htake, List.filter_append, List.filter_cons_of_pos htakes, List.filter_nil, Stream.emitted,
          List.filterMap_append]
        exact List.rel_append h.emitted (.cons hshow .nil)
      · exact ⟨p, h.at trivial⟩

theorem forall₂_of_mapM_ok {f : Fields → Except Fault Fields} {as bs : List Fields} (h : as.mapM f = .ok bs) :
    List.Forall₂ (fun a b => f a = .ok b) as bs := by
  induction as generalizing bs with
  | nil => cases h; exact .nil
  | cons a as ih =>
    rw [List.mapM_cons] at h
    cases ha : f a with
    | error fault => rw [ha] at h; cases h
    | ok b =>
      rw [ha] at h
      cases hrest : as.mapM f with
      | error fault => rw [show (as.mapM f) = .error fault from hrest] at h; cases h
      | ok bs' =>
        rw [show (as.mapM f) = .ok bs' from hrest] at h
        cases h
        exact .cons ha (ih hrest)

/-- Without a restart in between, going on keeps to the log. -/
theorem Follows.proceed {m : Memory} (hm : Sequenced q.runId m) (h : Follows q (logOf m q.runId) x p)
    {y : Stream} (hy : x.proceed q m = some y) : ∃ p', Follows q (logOf m q.runId) y p' := by
  have hpending := h.pending
  unfold Stream.proceed at hy
  split at hy
  · cases hy
    have hread : getEvents q.runId x.position none none m = .ok ((logOf m q.runId).drop p) := by
      rw [h.position, getEvents_eq hm]
    rw [hread]
    refine h.orRaise fun events hevents => ?_
    cases hevents
    split
    · exact ⟨p, h.at trivial⟩
    refine h.orRaise fun legacy _ => ⟨p, h.at ?_⟩
    split
    · exact List.prefix_rfl
    · exact ⟨_, List.prefix_rfl, List.forall₂_same.mpr fun _ _ => .inl rfl⟩
  · rename_i events hc
    cases hy
    rw [hc] at hpending
    refine h.orRaise fun result _ => h.orRaise fun retriable _ => h.orRaise fun events' hevents' => ?_
    refine ⟨p, h.at ⟨events, hpending, ?_⟩⟩
    exact (forall₂_of_mapM_ok hevents').imp fun e e' he => .inr ⟨retriable, he⟩
  · cases hy
    exact ⟨p, h.at trivial⟩
  · rename_i event rest hc
    cases hy
    exact h.emit hm.numbered hc
  · cases hy
    refine h.orRaise fun run _ => h.orRaise fun done _ => ⟨p, h.at ?_⟩
    cases done <;> trivial
  · split at hy
    · cases hy
    · cases hy
      exact h.orRaise fun _ _ => ⟨p, h.at trivial⟩
  · cases hy
    refine h.orRaise fun _ _ => ⟨p, h.position, h.start, h.bounded, ?_, trivial⟩
    rw [Stream.emitted, List.filterMap_append]
    exact List.append_nil _ ▸ h.emitted
  · cases hy
  · cases hy

theorem Follows.step {m : Memory} (hm : Sequenced q.runId m) (h : Follows q (logOf m q.runId) x p)
    {move : Move} {y : Stream} (hy : x.step q m move = some y) : ∃ p', Follows q (logOf m q.runId) y p' := by
  cases move with
  | proceed => exact h.proceed hm hy
  | authorize =>
    simp only [Stream.step] at hy
    split at hy
    · cases hy
      exact h.orRaise fun _ _ => ⟨p, h⟩
    · cases hy
      exact h.orRaise fun _ _ => ⟨p, h⟩
    · cases hy
  | timeout =>
    simp only [Stream.step] at hy
    split at hy
    · cases hy
      exact ⟨p, h.at trivial⟩
    · cases hy
  | cancel =>
    simp only [Stream.step] at hy
    split at hy
    · cases hy
    · cases hy
    · cases hy
      exact ⟨p, h.at trivial⟩

end Steps

/-! ### Exactness -/

theorem expected_eq {q : Query} {m : Memory} (hm : Sequenced q.runId m) :
    expected q m = ((logOf m q.runId).drop q.afterSeq).filter (allowed q.eventTypes) := by
  rw [expected, filter_after hm.numbered]

theorem Follows.exact {q : Query} {m : Memory} {x : Stream} {p : ℕ} (hm : Sequenced q.runId m)
    (h : Follows q (logOf m q.runId) x p) : Exact q m x := by
  refine ⟨_, ?_, h.emitted⟩
  rw [expected_eq hm]
  exact (List.IsPrefix.drop (List.take_prefix p _) q.afterSeq).filter _

/-- A stream that has gone through the whole log has yielded all that it should. -/
theorem Follows.complete {q : Query} {m : Memory} {x : Stream} {p : ℕ} (hm : Sequenced q.runId m)
    (h : Follows q (logOf m q.runId) x p) {run : Fields} (hrun : m.runs.get q.runId = some run)
    (hfinished : finished x.position run = .ok true) : Complete q m x := by
  have hsnapshot := hm.snapshot
  rw [hrun, Option.getD_some] at hsnapshot
  simp only [finished, hsnapshot] at hfinished
  cases hstatus : run.get "status" with
  | none => rw [hstatus] at hfinished; cases hfinished
  | some status =>
    rw [hstatus] at hfinished
    dsimp only at hfinished
    split at hfinished
    · rename_i hterminal
      have hlast : (logOf m q.runId).length ≤ p := by
        simp only [Except.ok.injEq, decide_eq_true_eq, h.position] at hfinished
        omega
      refine ⟨run, _, hrun, by rw [hstatus]; exact hterminal, hsnapshot, ?_⟩
      have hall : (expected q m).filter (fun event => decide (seqOf event ≤ (logOf m q.runId).length))
          = expected q m := by
        refine List.filter_eq_self.mpr fun event hevent => ?_
        obtain ⟨i, hi⟩ := List.getElem?_of_mem (List.mem_of_mem_filter (List.mem_of_mem_filter hevent))
        obtain ⟨hlt, -⟩ := List.getElem?_eq_some_iff.mp hi
        rw [seqOf_numbered hm.numbered hi]
        simp
        omega
      rw [hall, expected_eq hm]
      have hemitted := h.emitted
      rwa [List.take_of_length_le hlast] at hemitted
    · cases hfinished

theorem control_orRaise {α : Type} {x : Stream} {r : Except Fault α} {k : α → Stream}
    (h : (x.orRaise r k).control = .returned) : ∃ a, r = .ok a ∧ (k a).control = .returned := by
  cases r with
  | ok a => exact ⟨a, rfl, h⟩
  | error fault => cases h

theorem control_emit {q : Query} {x : Stream} {event : Fields} {rest : List Fields} :
    (x.emit q event rest).control ≠ .returned := by
  intro h
  unfold Stream.emit at h
  split at h
  · obtain ⟨seq, -, h⟩ := control_orRaise h
    dsimp only at h
    split at h
    · cases h
    · split at h
      · cases h
      · split at h <;> cases h
  · cases h

/-- The stream returns from the check of the run alone. -/
theorem Follows.returned {q : Query} {m : Memory} {x : Stream} {p : ℕ} (hm : Sequenced q.runId m)
    (h : Follows q (logOf m q.runId) x p) {move : Move} {y : Stream} (hy : x.step q m move = some y)
    (hreturned : y.control = .returned) : Complete q m y := by
  have hchecked : ∀ {run}, m.runs.get q.runId = some run → finished x.position run = .ok true →
      Complete q m { x with control := .returned } := fun hrun hfinished =>
    (h.at (c := .returned) trivial).complete hm hrun hfinished
  cases move with
  | proceed =>
    simp only [Stream.step] at hy
    unfold Stream.proceed at hy
    split at hy
    · cases hy
      obtain ⟨events, -, hk⟩ := control_orRaise hreturned
      split at hk
      · cases hk
      · obtain ⟨legacy, -, hk⟩ := control_orRaise hk
        dsimp only at hk
        split at hk <;> cases hk
    · cases hy
      obtain ⟨_, -, hk⟩ := control_orRaise hreturned
      obtain ⟨_, -, hk⟩ := control_orRaise hk
      obtain ⟨_, -, hk⟩ := control_orRaise hk
      cases hk
    · cases hy
      cases hreturned
    · cases hy
      exact absurd hreturned control_emit
    · cases hy
      obtain ⟨run, hrun, hk⟩ := control_orRaise hreturned
      obtain ⟨done, hdone, hk⟩ := control_orRaise hk
      cases done with
      | false => cases hk
      | true =>
        have hget : m.runs.get q.runId = some run := by
          unfold getRun at hrun
          split at hrun
          · cases hrun
          · split at hrun
            · cases hrun
              assumption
            · cases hrun
        rw [hrun, Stream.orRaise, hdone]
        exact hchecked hget hdone
    · split at hy
      · cases hy
      · cases hy
        obtain ⟨_, -, hk⟩ := control_orRaise hreturned
        cases hk
    · cases hy
      obtain ⟨_, -, hk⟩ := control_orRaise hreturned
      cases hk
    · cases hy
    · cases hy
  | authorize =>
    simp only [Stream.step] at hy
    split at hy
    · rename_i hc
      cases hy
      obtain ⟨_, -, hk⟩ := control_orRaise hreturned
      rw [hc] at hk
      cases hk
    · rename_i hc
      cases hy
      obtain ⟨_, -, hk⟩ := control_orRaise hreturned
      rw [hc] at hk
      cases hk
    · cases hy
  | timeout =>
    simp only [Stream.step] at hy
    split at hy
    · cases hy
      cases hreturned
    · cases hy
  | cancel =>
    simp only [Stream.step] at hy
    split at hy
    · cases hy
    · cases hy
    · cases hy
      cases hreturned

/-- The store and the stream of a run from its start on. -/
theorem follows_run {o : SetOrder} {q : Query} {s t : SqliteStore} {x y : Stream} {ls : List Label}
    (hs : Sequenced q.runId s.memory) (hx : ∃ p, Follows q (logOf s.memory q.runId) x p)
    (h : Run (step o q) Alongside (s, x) ls (t, y)) :
    Sequenced q.runId t.memory ∧ ∃ p, Follows q (logOf t.memory q.runId) y p := by
  have hrun := h.invariant (I := fun s => Sequenced q.runId s.1.memory ∧ ∃ p, Follows q (logOf s.1.memory q.runId) s.2 p)
    (fun s e u hs hok hu => ?_) ⟨hs, hx⟩
  · exact hrun
  obtain ⟨hs, p, hp⟩ := hs
  obtain ⟨s, x⟩ := s
  cases e with
  | store e =>
    cases hu
    obtain ⟨hnext, hlog⟩ := (Store.logFrame_extends o q.runId).step hs.inv hok (fun _ _ _ _ _ => trivial) hs
    exact ⟨hnext, p, hp.grow hlog⟩
  | stream move =>
    obtain ⟨y, hy, rfl⟩ := Option.map_eq_some_iff.mp hu
    exact ⟨hs, hp.step hs hy⟩

/-- A history in which the runs are created with no events behind them. -/
def Orderly : SqliteStore → Store.Event → Prop := fun _ e => e.orderly

instance (s : SqliteStore) (e : Store.Event) : Decidable (Orderly s e) := inferInstanceAs (Decidable (_ = true))

theorem orderly_run {o : SetOrder} {s : SqliteStore} {es : List Store.Event}
    (h : Run (fun s e => some (SqliteStore.step o s e)) Orderly .init es s) : s.Orderly :=
  h.invariant (fun _ _ _ hs he hu => by cases hu; exact Store.orderly_step o hs he) Store.orderly_init

/-- The stream of a run, opened in any state of the store and whatever happens to the
store beside it: it has always yielded a beginning of the events that it should yield,
and when it returns the run is TERMINAL and it has yielded them up to the last one. -/
theorem stream_exact {o : SetOrder} {q : Query} {es : List Store.Event} {s t : SqliteStore} {x : Stream}
    {ls : List Label} (hs : Run (fun s e => some (SqliteStore.step o s e)) Orderly .init es s)
    (hrun : s.memory.runs.has q.runId) (h : Run (step o q) Alongside (s, opened q) ls (t, x)) :
    Exact q t.memory x ∧ ∀ move y, x.step q t.memory move = some y → y.control = .returned →
      Complete q t.memory y := by
  have hsequenced := (orderly_run hs).memory.runs q.runId hrun
  obtain ⟨ht, p, hp⟩ := follows_run hsequenced ⟨_, follows_opened q _⟩ h
  exact ⟨hp.exact ht, fun move y hy hreturned => hp.returned ht hy hreturned⟩

/-! ### A stream to its end -/

namespace Followed

def run : Store.Op :=
  .createRun (.dict [("run_id", .str "run_1"), ("tenant_id", .str "tenant_a"), ("status", .str "QUEUED")])

def event (type : String) : Store.Event := .call true (.appendEvent "run_1" (.dict [("type", .str type)]))

def history : List Store.Event := [.call true run, event "run.created.v1"]

def terminal : Store.Event := .call true (.updateRun "run_1" (.dict [("status", .str "TERMINAL")]) none true)

def query : Query := ⟨"run_1", "tenant_a", 0, some ["run.created.v1", "run.cancelled.v1"]⟩

/-- While the stream yields its first event, two more are appended and the run ends; one
of the two is not asked for. -/
def labels : List Label :=
  [.stream .proceed, .stream .proceed, .store (event "run.started.v1"), .store (event "run.cancelled.v1"),
    .store terminal, .stream .proceed, .stream .proceed, .stream .proceed, .stream .proceed, .stream .proceed,
    .stream .proceed]

/-- The store before the stream, and both before its last step. -/
def played : Option (SqliteStore × SqliteStore × Stream) :=
  (Runs.exec (fun s e => some (SqliteStore.step Store.inOrder s e)) Orderly .init history).bind fun s =>
    (Runs.exec (step Store.inOrder query) Alongside (s, opened query) labels).map fun p => (s, p.1, p.2)

def returned : Option Stream → Bool
  | some ⟨_, yielded, .returned⟩ => yielded.length = 2
  | _ => false

theorem played_returned : (played.any fun p => p.1.memory.runs.has "run_1" &&
    returned (p.2.2.step query p.2.1.memory .proceed)) = true := by
  decide +kernel

end Followed

theorem stream_exact_terminal : ∃ t x y, Exact Followed.query t x ∧ x.step Followed.query t .proceed = some y ∧
    y.yielded.length = 2 ∧ Complete Followed.query t y := by
  have hplayed := Followed.played_returned
  cases hp : Followed.played with
  | none => rw [hp] at hplayed; cases hplayed
  | some p =>
    obtain ⟨s, t, x⟩ := p
    rw [hp, Option.any_some, Bool.and_eq_true] at hplayed
    obtain ⟨hrun, hreturned⟩ := hplayed
    obtain ⟨s', hs, h⟩ := Option.bind_eq_some_iff.mp hp
    obtain ⟨⟨t', x'⟩, ht, h⟩ := Option.map_eq_some_iff.mp h
    cases h
    obtain ⟨hexact, hcomplete⟩ := stream_exact (Runs.run_of_exec hs) hrun (Runs.run_of_exec ht)
    dsimp only at hreturned
    unfold Followed.returned at hreturned
    split at hreturned
    · rename_i hy
      exact ⟨t'.memory, x', _, hexact, hy, by simpa using hreturned, hcomplete _ _ hy rfl⟩
    · cases hreturned

end AutomlApi.Streams
