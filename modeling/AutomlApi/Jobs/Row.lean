import Mathlib.Algebra.Order.Field.Basic
import Mathlib.Algebra.Order.Field.Rat
import Mathlib.Order.WithBot
import Mathlib.Tactic.NormNum
import AutomlApi.Library.PyValues
import AutomlApi.Store.Value

/-! One row of the table `execution_job`, and what each SQL statement of the store
does to the row it selects. `updated_at` is left out, since nothing reads it.
Clock readings are exact numbers of days, as `julianday('now')` gives them. A
duration is any float, a NaN and the infinities included. -/

namespace AutomlApi.Jobs

open Store (Value Fields)

variable {ι : Type*}

/-- A reading of `julianday('now')`. -/
abbrev Time := ℚ

/-- A moment as a column keeps it, where infinities may stand too. -/
abbrev Moment := WithBot (WithTop Time)

def moment (now : Time) : Moment := ((now : WithTop Time) : WithBot (WithTop Time))

/-- `julianday('now') + (? / 86400.0)`. A NaN is bound as a null, and so is the sum. -/
def after (now : Time) : PyFloat → Option Moment
  | .finite seconds => some (moment (now + seconds / 86400))
  | .infinity negative => some (if negative then ⊥ else ⊤)
  | .nan _ => none

@[simp] theorem moment_le_moment {t u : Time} : moment t ≤ moment u ↔ t ≤ u :=
  WithBot.coe_le_coe.trans WithTop.coe_le_coe

theorem isSome_after {now : Time} {seconds : PyFloat} (h : seconds.isNaN = false) : (after now seconds).isSome := by
  cases seconds with
  | nan => cases h
  | _ => rfl

theorem isNaN_of_isFinite {seconds : PyFloat} (h : seconds.isFinite) : seconds.isNaN = false := by
  cases seconds with
  | finite => rfl
  | _ => cases h

inductive JobStatus where
  | ready | retry | leased | waiting | completed | dead
  deriving DecidableEq, Repr

structure Job (ι : Type*) where
  runId : ι
  workflowStep : String
  status : JobStatus
  checkpoint : Fields
  attempt : ℕ
  maxAttempts : ℕ
  availableAt : Option Moment
  leaseOwner : Option String
  leaseExpiresAt : Option Moment
  leaseGeneration : ℕ
  controlEpoch : ℕ
  lastError : Option String
  createdAt : Time

/-- What a worker holds of a row it has claimed. -/
structure Claim (ι : Type*) where
  runId : ι
  leaseGeneration : ℕ
  controlEpoch : ℕ
  deriving DecidableEq

/-- What the operations on jobs raise. -/
inductive Fault (ι : Type*) where
  | value (message : String)
  | type (message : String)
  | notFound (resource : String) (id : ι)
  | alreadyExists (resource : String) (id : ι)
  | terminal (id : ι)
  | fence (claim : Claim ι) (currentGeneration currentEpoch : ℕ) (currentStatus : JobStatus)
  deriving DecidableEq

/-- The `JobFenceError`s. -/
def Fault.isFence : Fault ι → Bool
  | .fence .. => true
  | _ => false

namespace Job

def claim (j : Job ι) : Claim ι := ⟨j.runId, j.leaseGeneration, j.controlEpoch⟩

/-- The row that `create_execution_job` inserts. -/
def created (runId : ι) (workflowStep : String) (checkpoint : Fields) (maxAttempts controlEpoch : ℕ)
    (now : Time) : Job ι where
  runId := runId
  workflowStep := workflowStep
  status := .ready
  checkpoint := checkpoint
  attempt := 0
  maxAttempts := maxAttempts
  availableAt := some (moment now)
  leaseOwner := none
  leaseExpiresAt := none
  leaseGeneration := 0
  controlEpoch := controlEpoch
  lastError := none
  createdAt := now

def wake (now : Time) (j : Job ι) : Job ι :=
  { j with
    status := .ready, availableAt := some (moment now), leaseOwner := none, leaseExpiresAt := none,
    controlEpoch := j.controlEpoch + 1, attempt := 0 }

/-- The lease of the row has run out by `now`; the comparison with a null fails. -/
def expired (now : Time) (j : Job ι) : Bool :=
  match j.leaseExpiresAt with
  | some expiry => expiry ≤ moment now
  | none => false

/-- The row is leased and its lease runs past `now`. -/
def active (now : Time) (j : Job ι) : Bool :=
  match j.leaseExpiresAt with
  | some expiry => j.status = .leased ∧ moment now < expiry
  | none => false

/-- The row is leased, its lease has run out, and so have its attempts. -/
def exhausted (now : Time) (j : Job ι) : Bool :=
  j.status = .leased ∧ j.expired now ∧ j.maxAttempts ≤ j.attempt

/-- What a claim does to every row before it looks for one. -/
def bury (now : Time) (j : Job ι) : Job ι :=
  if j.exhausted now then
    { j with
      status := .dead, leaseOwner := none, leaseExpiresAt := none,
      lastError := some (j.lastError.getD "lease expired at max attempts") }
  else j

/-- The row became available by `now`; the comparison with a null fails. -/
def available (now : Time) (j : Job ι) : Bool :=
  match j.availableAt with
  | some since => since ≤ moment now
  | none => false

def claimable (now : Time) (j : Job ι) : Bool :=
  j.attempt < j.maxAttempts ∧
    (((j.status = .ready ∨ j.status = .retry) ∧ j.available now) ∨
      (j.status = .leased ∧ j.expired now))

def lease (owner : String) (expiry : Option Moment) (j : Job ι) : Job ι :=
  { j with
    status := .leased, attempt := j.attempt + 1, leaseOwner := some owner,
    leaseExpiresAt := expiry, leaseGeneration := j.leaseGeneration + 1 }

def renew (expiry : Option Moment) (j : Job ι) : Job ι :=
  { j with leaseExpiresAt := expiry }

def putBack (workflowStep : String) (checkpoint : Fields) (nextStatus : JobStatus) (now : Time)
    (j : Job ι) : Job ι :=
  { j with
    workflowStep := workflowStep, checkpoint := checkpoint, status := nextStatus, attempt := 0,
    availableAt := if nextStatus = .ready then some (moment now) else none,
    leaseOwner := none, leaseExpiresAt := none, lastError := none }

def complete (j : Job ι) : Job ι :=
  { j with status := .completed, availableAt := none, leaseOwner := none, leaseExpiresAt := none }

/-- `retry_execution_job`: the last attempt makes the row `DEAD`. -/
def retry (available : Option Moment) (error : String) (j : Job ι) : Job ι :=
  { j with
    status := if j.maxAttempts ≤ j.attempt then .dead else .retry,
    availableAt := if j.maxAttempts ≤ j.attempt then none else available,
    leaseOwner := none, leaseExpiresAt := none, lastError := some error }

/-- `COMPLETED` and `DEAD`. -/
def terminal (j : Job ι) : Bool := j.status = .completed ∨ j.status = .dead

theorem expired_mono {j : Job ι} {t u : Time} (htu : t ≤ u) (h : j.expired t) : j.expired u := by
  unfold expired at h ⊢
  cases hx : j.leaseExpiresAt with
  | none => simp [hx] at h
  | some expiry => simp only [hx, decide_eq_true_eq] at h ⊢; exact h.trans (moment_le_moment.mpr htu)

theorem active_iff {j : Job ι} {now : Time} :
    j.active now ↔ j.status = .leased ∧ ∃ expiry, j.leaseExpiresAt = some expiry ∧ moment now < expiry := by
  unfold active
  cases hx : j.leaseExpiresAt <;> simp

theorem active_mono {j : Job ι} {t u : Time} (htu : t ≤ u) (h : j.active u) : j.active t := by
  obtain ⟨hs, expiry, hx, hlt⟩ := active_iff.mp h
  exact active_iff.mpr ⟨hs, expiry, hx, (moment_le_moment.mpr htu).trans_lt hlt⟩

/-! ### The shape of a row -/

/-- What the status of a row says about its other columns. -/
structure Shaped (j : Job ι) : Prop where
  attempts : 0 < j.maxAttempts
  waiting : j.status = .ready ∨ j.status = .retry → j.attempt < j.maxAttempts ∧ j.availableAt.isSome
  leased : j.status = .leased → j.leaseOwner.isSome ∧ j.leaseExpiresAt.isSome
  free : j.status ≠ .leased → j.leaseOwner = none ∧ j.leaseExpiresAt = none

theorem shaped_created {runId : ι} {workflowStep : String} {checkpoint : Fields}
    {maxAttempts controlEpoch : ℕ} {now : Time} (h : 0 < maxAttempts) :
    (created runId workflowStep checkpoint maxAttempts controlEpoch now).Shaped :=
  ⟨h, by simp [created, h], by simp [created], by simp [created]⟩

/-! ### The fence -/

/-- The check of `_require_job_fence` on the row it has read. -/
def fenced (now : Time) (c : Claim ι) (j : Job ι) : Except (Fault ι) (Job ι) :=
  if j.status ≠ .leased ∨ j.leaseGeneration ≠ c.leaseGeneration ∨ j.controlEpoch ≠ c.controlEpoch then
    .error (.fence c j.leaseGeneration j.controlEpoch j.status)
  else
    match j.leaseExpiresAt with
    | none => .error (.type "'<=' not supported between instances of 'NoneType' and 'float'")
    | some expiry =>
      if expiry ≤ moment now then .error (.fence c j.leaseGeneration j.controlEpoch j.status) else .ok j

/-- The claim no longer passes the fence of its row, and never will again. -/
def Stale (now : Time) (c : Claim ι) (j : Job ι) : Prop :=
  c.leaseGeneration < j.leaseGeneration ∨ c.controlEpoch < j.controlEpoch ∨
    (c.leaseGeneration ≤ j.leaseGeneration ∧ (j.status ≠ .leased ∨ j.expired now))

theorem Stale.mono {t u : Time} {c : Claim ι} {j : Job ι} (h : j.Stale t c) (htu : t ≤ u) : j.Stale u c :=
  h.imp_right <| .imp_right <| .imp_right <| .imp_right (expired_mono htu)

theorem fenced_eq_ok {now : Time} {c : Claim ι} {j k : Job ι} :
    fenced now c j = .ok k ↔ k = j ∧ j.status = .leased ∧ j.leaseGeneration = c.leaseGeneration ∧
      j.controlEpoch = c.controlEpoch ∧ ∃ expiry, j.leaseExpiresAt = some expiry ∧ moment now < expiry := by
  unfold fenced
  split
  · rename_i h
    constructor
    · intro he; cases he
    · rintro ⟨-, hs, hg, he, -⟩; simp [hs, hg, he] at h
  · rename_i h
    simp only [ne_eq, not_or, not_not] at h
    obtain ⟨hs, hg, he⟩ := h
    cases hx : j.leaseExpiresAt with
    | none => simp
    | some expiry =>
      simp only [hs, hg, he, true_and, Option.some.injEq]
      constructor
      · intro hk
        split at hk
        · cases hk
        · rename_i hlt
          cases hk
          exact ⟨rfl, expiry, rfl, not_le.mp hlt⟩
      · rintro ⟨rfl, _, rfl, hlt⟩
        rw [if_neg (not_le.mpr hlt)]

/-- A stale claim is refused with a `JobFenceError`. -/
theorem fenced_of_stale {now : Time} {c : Claim ι} {j : Job ι} (h : j.Stale now c) :
    fenced now c j = .error (.fence c j.leaseGeneration j.controlEpoch j.status) := by
  unfold fenced
  split
  · rfl
  · rename_i hf
    simp only [ne_eq, not_or, not_not] at hf
    obtain ⟨hs, hg, he⟩ := hf
    rcases h with h | h | ⟨-, h | h⟩
    · omega
    · omega
    · exact absurd hs h
    · unfold expired at h
      cases hx : j.leaseExpiresAt with
      | none => simp [hx] at h
      | some expiry =>
        simp only [hx, decide_eq_true_eq] at h
        simp only [if_pos h]

end Job

/-! ### What one operation does to one row -/

/-- The clock readings of the statements of one transaction, in their order. -/
structure Readings where
  first : Time
  second : Time
  third : Time
  fourth : Time
  first_le : first ≤ second
  second_le : second ≤ third
  third_le : third ≤ fourth

/-- Every statement reads the same moment. -/
def Readings.at (now : Time) : Readings := ⟨now, now, now, now, le_rfl, le_rfl, le_rfl⟩

theorem Readings.first_le_fourth (r : Readings) : r.first ≤ r.fourth :=
  r.first_le.trans (r.second_le.trans r.third_le)

namespace Job

/-- The changes of a row by one operation, each with what the operation has checked.
An operation is `definite` if its duration is no NaN. -/
inductive Moves (r : Readings) (definite : Bool) (j : Job ι) : Job ι → Prop
  | stays : Moves r definite j j
  | woken (h : j.terminal = false) : Moves r definite j (j.wake r.first)
  | buried (h : j.exhausted r.first) : Moves r definite j (j.bury r.first)
  | claimed (owner : String) (expiry : Option Moment) (hd : definite → expiry.isSome) (h : j.claimable r.third) :
      Moves r definite j (j.lease owner expiry)
  | renewed (expiry : Option Moment) (hd : expiry.isSome) (h : j.active r.first) :
      Moves r definite j (j.renew expiry)
  | checkpointed (workflowStep : String) (checkpoint : Fields) (nextStatus : JobStatus)
      (hs : j.status = .leased) (h : nextStatus = .ready ∨ nextStatus = .waiting) :
      Moves r definite j (j.putBack workflowStep checkpoint nextStatus r.second)
  | completed (hs : j.status = .leased) : Moves r definite j j.complete
  | retried (available : Option Moment) (error : String) (hd : definite → available.isSome)
      (hs : j.status = .leased) : Moves r definite j (j.retry available error)

namespace Moves

variable {r : Readings} {definite : Bool} {j k : Job ι}

theorem runId (h : Moves r definite j k) : k.runId = j.runId := by
  cases h with
  | buried => unfold bury; split <;> rfl
  | _ => rfl

/-- A definite operation leaves a row in shape. -/
theorem shaped (h : Moves r true j k) (hj : j.Shaped) : k.Shaped := by
  have hpos := hj.attempts
  cases h with
  | stays => exact hj
  | woken => exact ⟨hpos, by simp [wake, hpos], by simp [wake], by simp [wake]⟩
  | buried h => rw [bury, if_pos h]; exact ⟨hpos, by simp, by simp, by simp⟩
  | claimed _ _ hd => exact ⟨hpos, by simp [lease], by simp [lease, hd], by simp [lease]⟩
  | renewed _ hd h =>
    have hs := (active_iff.mp h).1
    exact ⟨hpos, by simp [renew, hs], by simp [renew, hj.leased hs, hd], by simp [renew, hs]⟩
  | checkpointed _ _ _ _ h =>
    rcases h with rfl | rfl <;>
      exact ⟨hpos, by simp [putBack, hpos], by simp [putBack], by simp [putBack]⟩
  | completed => exact ⟨hpos, by simp [complete], by simp [complete], by simp [complete]⟩
  | retried _ _ hd =>
    by_cases hlast : j.maxAttempts ≤ j.attempt
    · exact ⟨hpos, by simp [retry, hlast], by simp [retry, hlast], by simp [retry]⟩
    · exact ⟨hpos, by simp [retry, hlast, hd]; omega, by simp [retry, hlast], by simp [retry]⟩

theorem generation_le (h : Moves r definite j k) : j.leaseGeneration ≤ k.leaseGeneration := by
  cases h with
  | buried => unfold bury; split <;> exact le_rfl
  | claimed => exact Nat.le_succ _
  | _ => exact le_rfl

theorem epoch_le (h : Moves r definite j k) : j.controlEpoch ≤ k.controlEpoch := by
  cases h with
  | buried => unfold bury; split <;> exact le_rfl
  | woken => exact Nat.le_succ _
  | _ => exact le_rfl

/-- No operation changes a `COMPLETED` or `DEAD` row. -/
theorem frozen (h : Moves r definite j k) (hj : j.terminal) : k = j := by
  have hs : j.status = .completed ∨ j.status = .dead := by simpa [terminal] using hj
  have hl : j.status ≠ .leased := by rcases hs with hs | hs <;> simp [hs]
  cases h with
  | stays => rfl
  | woken h => simp [h] at hj
  | buried h => simp [exhausted, hl] at h
  | claimed _ _ _ h => rcases hs with hs | hs <;> simp [claimable, hs] at h
  | renewed _ _ h => exact absurd (active_iff.mp h).1 hl
  | checkpointed _ _ _ h => exact absurd h hl
  | completed h => exact absurd h hl
  | retried _ _ _ h => exact absurd h hl

/-- A claim that is stale when an operation starts is stale when it ends. -/
theorem stale (h : Moves r definite j k) {c : Claim ι} (hc : j.Stale r.first c) : k.Stale r.fourth c := by
  rcases hc with hg | he | ⟨hg, hl⟩
  · exact .inl (hg.trans_le h.generation_le)
  · exact .inr (.inl (he.trans_le h.epoch_le))
  cases h with
  | stays => exact .inr (.inr ⟨hg, hl.imp_right (expired_mono r.first_le_fourth)⟩)
  | claimed => exact .inl (Nat.lt_succ_of_le hg)
  | renewed _ _ h =>
    obtain ⟨hs, expiry, hx, hlt⟩ := active_iff.mp h
    exact absurd hl (by simp [hs, expired, hx, hlt])
  | woken => exact .inr (.inr ⟨hg, .inl (by simp [wake])⟩)
  | buried h => rw [bury, if_pos h]; exact .inr (.inr ⟨hg, .inl (by simp)⟩)
  | checkpointed _ _ _ _ h =>
    exact .inr (.inr ⟨hg, .inl (by rcases h with rfl | rfl <;> simp [putBack])⟩)
  | completed => exact .inr (.inr ⟨hg, .inl (by simp [complete])⟩)
  | retried =>
    refine .inr (.inr ⟨hg, .inl ?_⟩)
    by_cases hlast : j.maxAttempts ≤ j.attempt <;> simp [retry, hlast]

/-- Apart from a claim, no operation makes a lease live. -/
theorem active (h : Moves r definite j k) (hc : k.leaseGeneration = j.leaseGeneration) {now : Time}
    (hnow : r.fourth ≤ now) (hk : k.active now) : j.active r.first := by
  obtain ⟨hs, expiry, hx, hlt⟩ := active_iff.mp hk
  cases h with
  | stays => exact active_iff.mpr ⟨hs, expiry, hx, (moment_le_moment.mpr (r.first_le_fourth.trans hnow)).trans_lt hlt⟩
  | woken => simp [wake] at hs
  | buried h => rw [bury, if_pos h] at hs; simp at hs
  | claimed => exact absurd hc (Nat.succ_ne_self _)
  | renewed _ _ h => exact h
  | checkpointed _ _ _ _ h => rcases h with rfl | rfl <;> simp [putBack] at hs
  | completed => simp [complete] at hs
  | retried => by_cases hlast : j.maxAttempts ≤ j.attempt <;> simp [retry, hlast] at hs

end Moves

theorem bury_moves {r : Readings} {definite : Bool} (j : Job ι) : j.Moves r definite (j.bury r.first) := by
  by_cases h : j.exhausted r.first
  · exact .buried h
  · rw [bury, if_neg h]; exact .stays

theorem bury_generation (j : Job ι) (now : Time) : (j.bury now).leaseGeneration = j.leaseGeneration := by
  unfold bury; split <;> rfl

/-- A row that a claim takes is one that it did not bury. -/
theorem eq_of_bury_claimable {t u : Time} {j : Job ι} (h : (j.bury t).claimable u) : j.bury t = j := by
  unfold bury at h ⊢
  split
  · rename_i hx; rw [if_pos hx] at h; simp [claimable] at h
  · rfl

end Job

/-- What becomes of the row of one run. -/
inductive RowMoves (r : Readings) (definite : Bool) : Option (Job ι) → Option (Job ι) → Prop
  | absent : RowMoves r definite none none
  | created (job : Job ι) (hs : job.Shaped) (hr : job.status = .ready) : RowMoves r definite none (some job)
  | moved {j k : Job ι} (h : j.Moves r definite k) : RowMoves r definite (some j) (some k)

theorem RowMoves.stays {r : Readings} {definite : Bool} (o : Option (Job ι)) : RowMoves r definite o o := by
  cases o with
  | none => exact .absent
  | some j => exact .moved .stays

end AutomlApi.Jobs
