import Mathlib.Data.List.Basic
import AutomlApi.Library.Runs

/-! Waiting for a condition on shared state, on one event loop. A condition has a lock
and the tasks parked on it; it is created by the first task that waits on it. A waiter
reads the state while it holds the lock, and parks, giving the lock back, when what it
reads says no. A writer does not take the lock: after its write it schedules a
notification for each condition of its topic that exists, which takes the lock later
and wakes every task parked there.

No wake-up is lost when every write that turns the reading of a parked task names the
topic of that task. -/

namespace AutomlApi.Wakeups

variable {σ ε ω κ : Type*}

/-- Shared state with its writes. `look` is the reading of a waiter: whether what it
waits for is there, and nothing where the reading raises. -/
structure Monitor (σ ε ω κ : Type*) where
  topic : ω → κ
  look : ω → σ → Option Bool
  write : σ → ε → σ
  wakes : σ → ε → List κ

/-- A waiter wants the lock; holds it, before and after its reading; is parked; wants
the lock again, to read or, after its time, to leave; has gone. -/
inductive Stage where
  | acquiring | checking | parking | parked | waking | leaving | done
  deriving DecidableEq

/-- A waiter at this stage holds the lock of its condition. -/
def Stage.holds (s : Stage) : Bool := s = .checking ∨ s = .parking

structure Waiter (ω : Type*) where
  want : ω
  stage : Stage

inductive Progress where
  | scheduled | running | done
  deriving DecidableEq

structure Notifier (κ : Type*) where
  topic : κ
  progress : Progress

structure State (σ ω κ : Type*) where
  shared : σ
  conditions : List κ
  waiters : List (Waiter ω)
  notifiers : List (Notifier κ)

inductive Event (ε ω : Type*) where
  | write (e : ε)
  | arrive (want : ω)
  | acquire (i : ℕ)
  | check (i : ℕ)
  | park (i : ℕ)
  | timeout (i : ℕ)
  | leave (i : ℕ)
  | enter (j : ℕ)
  | notify (j : ℕ)

namespace Monitor

/-- A notification of the topic is scheduled or running. -/
def Pending (s : State σ ω κ) (k : κ) : Prop := ∃ n ∈ s.notifiers, n.topic = k ∧ n.progress ≠ .done

/-- A waiter is parked, what it waits for is there, and nothing will wake it. -/
def Lost (M : Monitor σ ε ω κ) (s : State σ ω κ) : Prop :=
  ∃ w ∈ s.waiters, w.stage = .parked ∧ M.look w.want s.shared = some true ∧ ¬ Pending s (M.topic w.want)

structure Sound (M : Monitor σ ε ω κ) (s : State σ ω κ) : Prop where
  known : ∀ w ∈ s.waiters, M.topic w.want ∈ s.conditions
  alone : ∀ n ∈ s.notifiers, n.progress = .running →
    ∀ w ∈ s.waiters, M.topic w.want = n.topic → w.stage.holds = false
  owed : ∀ w ∈ s.waiters, w.stage = .parking ∨ w.stage = .parked → M.look w.want s.shared ≠ some false →
    Pending s (M.topic w.want)

theorem Sound.not_lost {M : Monitor σ ε ω κ} {s : State σ ω κ} (h : Sound M s) : ¬ Lost M s := by
  rintro ⟨w, hw, hparked, hlook, hnone⟩
  refine hnone (h.owed w hw (.inr hparked) ?_)
  simp [hlook]

/-- A write that turns the reading of a waiter names its topic. -/
def Announces (M : Monitor σ ε ω κ) (s : σ) (e : ε) : Prop :=
  ∀ w, M.look w s = some false → M.look w (M.write s e) ≠ some false → M.topic w ∈ M.wakes s e

/-- The waiter goes to another stage. -/
def move (s : State σ ω κ) (i : ℕ) (w : Waiter ω) (stage : Stage) : State σ ω κ :=
  { s with waiters := s.waiters.set i { w with stage := stage } }

theorem mem_move {s : State σ ω κ} {i : ℕ} {w w' : Waiter ω} {stage : Stage} (h : w' ∈ (move s i w stage).waiters) :
    w' = { w with stage := stage } ∨ w' ∈ s.waiters :=
  (List.mem_or_eq_of_mem_set h).symm

/-- A notifier that moves on to another stage than its end, or that is of another topic. -/
theorem pending_set {s : State σ ω κ} {k : κ} {j : ℕ} {n n' : Notifier κ} {p : Progress} (hj : s.notifiers[j]? = some n)
    (hn' : n' ∈ s.notifiers) (hk : n'.topic = k) (hpending : n'.progress ≠ .done) (hp : p ≠ .done ∨ n.topic ≠ k)
    {waiters : List (Waiter ω)} :
    Pending { s with waiters := waiters, notifiers := s.notifiers.set j { n with progress := p } } k := by
  obtain ⟨i, hi⟩ := List.getElem?_of_mem hn'
  by_cases hij : i = j
  · subst hij
    have heq : n = n' := Option.some.inj (hj.symm.trans hi)
    subst heq
    refine ⟨⟨n.topic, p⟩, List.mem_set (List.getElem?_eq_some_iff.mp hi).1 _, hk, ?_⟩
    exact hp.resolve_right fun hne => hne hk
  · refine ⟨n', List.mem_of_getElem? (i := i) ?_, hk, hpending⟩
    rw [List.getElem?_set_ne (Ne.symm hij), hi]

/-! ### Steps -/

variable [DecidableEq κ]

/-- Some task holds the lock of the condition. -/
def locked (M : Monitor σ ε ω κ) (s : State σ ω κ) (k : κ) : Bool :=
  s.waiters.any (fun w => decide (M.topic w.want = k) && w.stage.holds) ||
    s.notifiers.any fun n => decide (n.topic = k) && decide (n.progress = .running)

/-- Wakes the tasks that are parked on a condition. -/
def wake (M : Monitor σ ε ω κ) (k : κ) (w : Waiter ω) : Waiter ω :=
  if M.topic w.want = k ∧ w.stage = .parked then { w with stage := .waking } else w

def step (M : Monitor σ ε ω κ) (s : State σ ω κ) : Event ε ω → Option (State σ ω κ)
  | .write e =>
    some { s with
      shared := M.write s.shared e
      notifiers := s.notifiers ++ ((M.wakes s.shared e).filter (· ∈ s.conditions)).map (⟨·, .scheduled⟩) }
  | .arrive want =>
    some { s with
      conditions := if M.topic want ∈ s.conditions then s.conditions else s.conditions ++ [M.topic want]
      waiters := s.waiters ++ [⟨want, .acquiring⟩] }
  | .acquire i =>
    match s.waiters[i]? with
    | some w =>
      if (w.stage = .acquiring ∨ w.stage = .waking) ∧ ¬ M.locked s (M.topic w.want) then some (move s i w .checking)
      else none
    | none => none
  | .check i =>
    match s.waiters[i]? with
    | some w =>
      if w.stage = .checking then some (move s i w (if M.look w.want s.shared = some false then .parking else .done))
      else none
    | none => none
  | .park i =>
    match s.waiters[i]? with
    | some w => if w.stage = .parking then some (move s i w .parked) else none
    | none => none
  | .timeout i =>
    match s.waiters[i]? with
    | some w =>
      if w.stage = .parking then some (move s i w .done)
      else if w.stage = .parked ∨ w.stage = .waking then some (move s i w .leaving)
      else none
    | none => none
  | .leave i =>
    match s.waiters[i]? with
    | some w =>
      if w.stage = .leaving ∧ ¬ M.locked s (M.topic w.want) then some (move s i w .done) else none
    | none => none
  | .enter j =>
    match s.notifiers[j]? with
    | some n =>
      if n.progress = .scheduled ∧ ¬ M.locked s n.topic then
        some { s with notifiers := s.notifiers.set j { n with progress := .running } }
      else none
    | none => none
  | .notify j =>
    match s.notifiers[j]? with
    | some n =>
      if n.progress = .running then
        some { s with
          waiters := s.waiters.map (M.wake n.topic)
          notifiers := s.notifiers.set j { n with progress := .done } }
      else none
    | none => none

variable {M : Monitor σ ε ω κ} {s : State σ ω κ}

theorem not_locked {k : κ} (h : ¬ M.locked s k) :
    (∀ w ∈ s.waiters, M.topic w.want = k → w.stage.holds = false) ∧
      ∀ n ∈ s.notifiers, n.topic = k → n.progress ≠ .running := by
  simp only [locked, Bool.or_eq_true, List.any_eq_true, Bool.and_eq_true, decide_eq_true_eq, not_or,
    not_exists, not_and] at h
  refine ⟨fun w hw hk => ?_, fun n hn hk => h.2 n hn hk⟩
  simpa using h.1 w hw hk

/-- A waiter that moves leaves the others and the notifiers as they are. -/
theorem Sound.move (h : Sound M s) {i : ℕ} {w : Waiter ω} (hi : s.waiters[i]? = some w) {stage : Stage}
    (hfree : stage.holds → w.stage.holds ∨ ¬ M.locked s (M.topic w.want))
    (howed : stage = .parking ∨ stage = .parked →
      M.look w.want s.shared = some false ∨ w.stage = .parking ∨ w.stage = .parked) :
    Sound M (Monitor.move s i w stage) := by
  have hw := List.mem_of_getElem? hi
  refine ⟨fun w' hw' => ?_, fun n hn hrunning w' hw' hk => ?_, fun w' hw' hstage hlook => ?_⟩
  · rcases mem_move hw' with rfl | hw'
    · exact h.known w hw
    · exact h.known w' hw'
  · rcases mem_move hw' with rfl | hw'
    · by_contra hholds
      simp only [Bool.not_eq_false] at hholds
      rcases hfree hholds with hheld | hfree
      · exact absurd (h.alone n hn hrunning w hw hk) (by simp [hheld])
      · exact (not_locked hfree).2 n hn hk.symm hrunning
    · exact h.alone n hn hrunning w' hw' hk
  · rcases mem_move hw' with rfl | hw'
    · rcases howed hstage with hno | hparked
      · exact absurd hno hlook
      · exact h.owed w hw hparked hlook
    · exact h.owed w' hw' hstage hlook

theorem wake_want (k : κ) (w : Waiter ω) : (M.wake k w).want = w.want := by
  unfold wake
  split <;> rfl

theorem wake_holds {k : κ} {w : Waiter ω} (h : w.stage.holds = false) : (M.wake k w).stage.holds = false := by
  unfold wake
  split
  · rfl
  · exact h

theorem sound_step (h : Sound M s) {e : Event ε ω} (hok : ∀ e', e = .write e' → Announces M s.shared e')
    {t : State σ ω κ} (ht : M.step s e = some t) : Sound M t := by
  cases e with
  | write e =>
    cases ht
    refine ⟨h.known, fun n hn hrunning => ?_, fun w hw hstage hlook => ?_⟩
    · rcases List.mem_append.mp hn with hn | hn
      · exact h.alone n hn hrunning
      · obtain ⟨k, -, rfl⟩ := List.mem_map.mp hn
        cases hrunning
    · by_cases hbefore : M.look w.want s.shared = some false
      · have hwakes := hok e rfl w.want hbefore hlook
        refine ⟨⟨M.topic w.want, .scheduled⟩, List.mem_append_right _ ?_, rfl, nofun⟩
        refine List.mem_map_of_mem (List.mem_filter.mpr ⟨hwakes, ?_⟩)
        simpa using h.known w hw
      · obtain ⟨n, hn, hpending⟩ := h.owed w hw hstage hbefore
        exact ⟨n, List.mem_append_left _ hn, hpending⟩
  | arrive want =>
    cases ht
    have hmem : ∀ k ∈ s.conditions,
        k ∈ if M.topic want ∈ s.conditions then s.conditions else s.conditions ++ [M.topic want] := by
      intro k hk
      split
      · exact hk
      · exact List.mem_append_left _ hk
    refine ⟨fun w hw => ?_, fun n hn hrunning w hw hk => ?_, fun w hw hstage hlook => ?_⟩
    · rcases List.mem_append.mp hw with hw | hw
      · exact hmem _ (h.known w hw)
      · cases List.mem_singleton.mp hw
        dsimp only
        split
        · assumption
        · simp
    · rcases List.mem_append.mp hw with hw | hw
      · exact h.alone n hn hrunning w hw hk
      · cases List.mem_singleton.mp hw
        rfl
    · rcases List.mem_append.mp hw with hw | hw
      · exact h.owed w hw hstage hlook
      · cases List.mem_singleton.mp hw
        simp at hstage
  | acquire i =>
    simp only [step] at ht
    split at ht
    · rename_i w hi
      split at ht
      · rename_i hc
        cases ht
        exact h.move hi (fun _ => .inr hc.2) (by simp)
      · cases ht
    · cases ht
  | check i =>
    simp only [step] at ht
    split at ht
    · rename_i w hi
      split at ht
      · rename_i hc
        cases ht
        refine h.move hi (fun _ => .inl (by rw [hc]; rfl)) fun hstage => .inl ?_
        by_contra hno
        simp [hno] at hstage
      · cases ht
    · cases ht
  | park i =>
    simp only [step] at ht
    split at ht
    · rename_i w hi
      split at ht
      · rename_i hc
        cases ht
        exact h.move hi (by simp [Stage.holds]) fun _ => .inr (.inl hc)
      · cases ht
    · cases ht
  | timeout i =>
    simp only [step] at ht
    split at ht
    · rename_i w hi
      split at ht
      · cases ht
        exact h.move hi (by simp [Stage.holds]) (by simp)
      · split at ht
        · cases ht
          exact h.move hi (by simp [Stage.holds]) (by simp)
        · cases ht
    · cases ht
  | leave i =>
    simp only [step] at ht
    split at ht
    · rename_i w hi
      split at ht
      · cases ht
        exact h.move hi (by simp [Stage.holds]) (by simp)
      · cases ht
    · cases ht
  | enter j =>
    simp only [step] at ht
    split at ht
    · rename_i n hj
      split at ht
      · rename_i hc
        cases ht
        obtain ⟨hwaiters, -⟩ := not_locked hc.2
        refine ⟨h.known, fun n' hn' hrunning w hw hk => ?_, fun w hw hstage hlook => ?_⟩
        · rcases List.mem_or_eq_of_mem_set hn' with hn' | rfl
          · exact h.alone n' hn' hrunning w hw hk
          · exact hwaiters w hw hk
        · obtain ⟨n', hn', hk, hpending⟩ := h.owed w hw hstage hlook
          exact pending_set hj hn' hk hpending (.inl (by decide))
      · cases ht
    · cases ht
  | notify j =>
    simp only [step] at ht
    split at ht
    · rename_i n hj
      split at ht
      · rename_i hrunning
        cases ht
        have hn := List.mem_of_getElem? hj
        refine ⟨fun w hw => ?_, fun n' hn' hrunning' w hw hk => ?_, fun w hw hstage hlook => ?_⟩
        · obtain ⟨w, hmem, rfl⟩ := List.mem_map.mp hw
          rw [wake_want]
          exact h.known w hmem
        · obtain ⟨w, hmem, rfl⟩ := List.mem_map.mp hw
          rw [wake_want] at hk
          rcases List.mem_or_eq_of_mem_set hn' with hn' | rfl
          · exact wake_holds (h.alone n' hn' hrunning' w hmem hk)
          · cases hrunning'
        · obtain ⟨w, hmem, rfl⟩ := List.mem_map.mp hw
          rw [wake_want] at hlook ⊢
          by_cases hk : M.topic w.want = n.topic
          · -- the lock is the notifier's, so that no waiter is between its reading and its parking
            have hheld := h.alone n hn hrunning w hmem hk
            unfold wake at hstage
            split at hstage
            · simp at hstage
            · rename_i hno
              rcases hstage with hstage | hstage
              · simp [hstage, Stage.holds] at hheld
              · exact absurd ⟨hk, hstage⟩ hno
          · rw [wake, if_neg fun hc => hk hc.1] at hstage
            obtain ⟨n', hn', hk', hpending⟩ := h.owed w hmem hstage hlook
            exact pending_set hj hn' hk' hpending (.inr (Ne.symm hk))
      · cases ht
    · cases ht

theorem shared_step {e : Event ε ω} {t : State σ ω κ} (h : M.step s e = some t) (he : ∀ e', e ≠ .write e') :
    t.shared = s.shared := by
  unfold step at h
  split at h
  · exact absurd rfl (he _)
  · cases h
    rfl
  all_goals
    split at h
    · repeat' split at h
      all_goals cases h <;> rfl
    · cases h

/-- Where every write announces what it turns, no wake-up is lost in any run. -/
theorem never_lost {I : σ → Prop} {ok : State σ ω κ → Event ε ω → Prop}
    (hinv : ∀ s e, I s.shared → ok s (.write e) → I (M.write s.shared e))
    (hannounces : ∀ s e, I s.shared → ok s (.write e) → Announces M s.shared e)
    {shared : σ} (hshared : I shared) {es : List (Event ε ω)} {t : State σ ω κ}
    (h : Runs.Run M.step ok ⟨shared, [], [], []⟩ es t) : ¬ Lost M t := by
  have hstart : Sound M ⟨shared, [], [], []⟩ := ⟨by simp, by simp, by simp⟩
  refine (h.invariant (I := fun s => I s.shared ∧ Sound M s) (fun s e u hs hok hu => ⟨?_, ?_⟩)
    ⟨hshared, hstart⟩).2.not_lost
  · cases e with
    | write e =>
      cases hu
      exact hinv s e hs.1 hok
    | _ => exact shared_step hu nofun ▸ hs.1
  · refine sound_step hs.2 (fun e' he => ?_) hu
    subst he
    exact hannounces s e' hs.1 hok

end Monitor

end AutomlApi.Wakeups
