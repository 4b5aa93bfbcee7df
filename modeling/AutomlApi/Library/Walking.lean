import Mathlib.Data.Finset.Card
import Mathlib.Data.Finset.Dedup
import Mathlib.Data.List.Basic
import Mathlib.Data.Nat.Count

/-! Walks along cursors. A walk goes on to a cursor that it has not followed since it last
started over, and starts over a bounded number of times. So it asks for no cursor twice
between two starts, and it is finite where the cursors are. -/

namespace AutomlApi.Walking

variable {κ : Type*}

/-- Where a walk is, and the cursors it has followed since it started over. -/
structure Walk (κ : Type*) where
  cursor : Option κ := none
  prior : List κ := []
  restarts : ℕ := 0

inductive Step (max : ℕ) : Walk κ → Walk κ → Prop
  | next {w : Walk κ} {c : κ} (h : c ∉ w.prior) : Step max w ⟨some c, c :: w.prior, w.restarts⟩
  | restart {w : Walk κ} (h : w.restarts < max) : Step max w ⟨none, [], w.restarts + 1⟩

/-- The places of a walk, one after the other, until it has ended. -/
structure Walks (max : ℕ) (ws : ℕ → Option (Walk κ)) : Prop where
  start : ∀ w, ws 0 = some w → w = {}
  step : ∀ n w, ws (n + 1) = some w → ∃ v, ws n = some v ∧ Step max v w

/-- The walk asks for the first page. -/
def Starts (o : Option (Walk κ)) : Prop := ∃ w, o = some w ∧ w.cursor = none

structure Tidy (max : ℕ) (w : Walk κ) : Prop where
  nodup : w.prior.Nodup
  head : w.cursor = w.prior.head?
  restarts : w.restarts ≤ max

section

variable {max : ℕ} {ws : ℕ → Option (Walk κ)}

theorem tidy_step {v w : Walk κ} (hv : Tidy max v) (h : Step max v w) : Tidy max w := by
  cases h with
  | next hfresh => exact ⟨List.nodup_cons.mpr ⟨hfresh, hv.nodup⟩, rfl, hv.restarts⟩
  | restart hlt => exact ⟨List.nodup_nil, rfl, hlt⟩

theorem Walks.tidy (h : Walks max ws) {n : ℕ} {w : Walk κ} (hw : ws n = some w) : Tidy max w := by
  induction n generalizing w with
  | zero => exact h.start w hw ▸ ⟨List.nodup_nil, rfl, Nat.zero_le max⟩
  | succ n ih =>
    obtain ⟨v, hv, hstep⟩ := h.step n w hw
    exact tidy_step (ih hv) hstep

/-- A walk that goes on has not ended before. -/
theorem Walks.before (h : Walks max ws) {m n : ℕ} (hmn : m ≤ n) {w : Walk κ} (hw : ws n = some w) :
    ∃ v, ws m = some v := by
  induction n, hmn using Nat.le_induction generalizing w with
  | base => exact ⟨w, hw⟩
  | succ n _ ih =>
    obtain ⟨v, hv, -⟩ := h.step n w hw
    exact ih hv

/-! ### Starts -/

open Classical in
/-- The starts before the `n`-th request. -/
noncomputable def starts (ws : ℕ → Option (Walk κ)) (n : ℕ) : ℕ := Nat.count (fun k => Starts (ws k)) n

theorem starts_succ (n : ℕ) [Decidable (Starts (ws n))] :
    starts ws (n + 1) = starts ws n + if Starts (ws n) then 1 else 0 := by
  classical
  rw [starts, Nat.count_succ, starts]
  congr

theorem starts_eq (h : Walks max ws) {n : ℕ} {w : Walk κ} (hw : ws n = some w) :
    starts ws (n + 1) = w.restarts + 1 := by
  classical
  induction n generalizing w with
  | zero =>
    cases h.start w hw
    rw [starts_succ, if_pos ⟨{}, hw, rfl⟩, starts, Nat.count_zero]
  | succ n ih =>
    obtain ⟨v, hv, hstep⟩ := h.step n w hw
    have hbefore := ih hv
    rw [starts_succ, hbefore]
    cases hstep with
    | next hfresh =>
      rw [if_neg]
      rintro ⟨w, hw', hnone⟩
      cases hw.symm.trans hw'
      cases hnone
    | restart hlt => rw [if_pos ⟨_, hw, rfl⟩]

theorem starts_le (h : Walks max ws) (n : ℕ) : starts ws n ≤ max + 1 := by
  classical
  induction n with
  | zero =>
    rw [starts, Nat.count_zero]
    exact Nat.zero_le _
  | succ n ih =>
    cases hw : ws n with
    | some w =>
      rw [starts_eq h hw]
      exact Nat.succ_le_succ (h.tidy hw).restarts
    | none =>
      have hstop : ¬ Starts (ws n) := by
        rintro ⟨w, hw', -⟩
        cases hw.symm.trans hw'
      rwa [starts_succ, if_neg hstop]

/-! ### Cursors -/

/-- Until a walk starts over, it keeps what it has followed. -/
theorem prior_subset (h : Walks max ws) {m n : ℕ} (hmn : m ≤ n) {v w : Walk κ} (hv : ws m = some v)
    (hw : ws n = some w) (hon : ∀ k, m < k → k ≤ n → ¬ Starts (ws k)) : v.prior ⊆ w.prior := by
  induction n, hmn using Nat.le_induction generalizing w with
  | base =>
    cases hv.symm.trans hw
    exact List.Subset.refl _
  | succ n hmn ih =>
    obtain ⟨u, hu, hstep⟩ := h.step n w hw
    have hkept := ih hu fun k hm hn => hon k hm (Nat.le_succ_of_le hn)
    cases hstep with
    | next hfresh => exact fun c hc => List.mem_cons_of_mem _ (hkept hc)
    | restart hlt => exact absurd ⟨_, hw, rfl⟩ (hon (n + 1) (Nat.lt_succ_of_le hmn) le_rfl)

/-- A cursor is asked for once between two starts. -/
theorem cursor_ne (h : Walks max ws) {m n : ℕ} (hmn : m < n) {v w : Walk κ} (hv : ws m = some v) (hw : ws n = some w)
    (hon : ∀ k, m < k → k ≤ n → ¬ Starts (ws k)) : v.cursor ≠ w.cursor := by
  obtain ⟨n, rfl⟩ : ∃ k, n = k + 1 := ⟨n - 1, by omega⟩
  obtain ⟨u, hu, hstep⟩ := h.step n w hw
  have hkept := prior_subset h (Nat.le_of_lt_succ hmn) hv hu fun k hm hn => hon k hm (Nat.le_succ_of_le hn)
  cases hstep with
  | restart hlt => exact absurd ⟨_, hw, rfl⟩ (hon (n + 1) hmn le_rfl)
  | @next c hfresh =>
    intro hcursor
    have hcursor : v.cursor = some c := hcursor
    have hmem : c ∈ v.prior := List.mem_of_head? ((h.tidy hv).head.symm.trans hcursor)
    exact hfresh (hkept hmem)

/-! ### The end -/

/-- What a walk can still do: the cursors that are left, in each of the starts that are left. -/
def budget (max size : ℕ) (w : Walk κ) : ℕ := (max - w.restarts) * (size + 1) + (size - w.prior.length)

theorem length_prior_le [DecidableEq κ] {w : Walk κ} (hw : Tidy max w) {cursors : Finset κ}
    (h : ∀ c ∈ w.prior, c ∈ cursors) : w.prior.length ≤ cursors.card := by
  rw [← List.toFinset_card_of_nodup hw.nodup]
  exact Finset.card_le_card fun c hc => h c (List.mem_toFinset.mp hc)

theorem budget_lt [DecidableEq κ] {v w : Walk κ} {cursors : Finset κ} (hv : Tidy max v) (h : Step max v w)
    (hw : ∀ c ∈ w.prior, c ∈ cursors) : budget max cursors.card w < budget max cursors.card v := by
  have hle := length_prior_le (tidy_step hv h) hw
  cases h with
  | next hfresh =>
    simp only [budget, List.length_cons] at hle ⊢
    omega
  | restart hlt =>
    obtain ⟨d, hd⟩ : ∃ d, max - v.restarts = d + 1 := ⟨max - v.restarts - 1, by omega⟩
    have hrest : max - (v.restarts + 1) = d := by omega
    simp only [budget, List.length_nil, hd, hrest, Nat.add_mul, Nat.one_mul]
    omega

theorem prior_mem (h : Walks max ws) {cursors : Finset κ}
    (hcursors : ∀ n w c, ws n = some w → w.cursor = some c → c ∈ cursors) {n : ℕ} {w : Walk κ} (hw : ws n = some w) :
    ∀ c ∈ w.prior, c ∈ cursors := by
  induction n generalizing w with
  | zero =>
    cases h.start w hw
    exact fun c hc => absurd hc List.not_mem_nil
  | succ n ih =>
    obtain ⟨v, hv, hstep⟩ := h.step n w hw
    cases hstep with
    | next hfresh => exact List.forall_mem_cons.mpr ⟨hcursors (n + 1) _ _ hw rfl, ih hv⟩
    | restart hlt => exact fun c hc => absurd hc List.not_mem_nil

/-- A walk ends, where only finitely many cursors are ever asked for. -/
theorem ends (h : Walks max ws) {cursors : Finset κ}
    (hcursors : ∀ n w c, ws n = some w → w.cursor = some c → c ∈ cursors) :
    ∃ n ≤ (max + 1) * (cursors.card + 1), ws n = none := by
  classical
  have hspent : ∀ n w, ws n = some w → budget max cursors.card w + n ≤ max * (cursors.card + 1) + cursors.card := by
    intro n
    induction n with
    | zero =>
      intro w hw
      cases h.start w hw
      exact le_rfl
    | succ n ih =>
      intro w hw
      obtain ⟨v, hv, hstep⟩ := h.step n w hw
      have hlt := budget_lt (h.tidy hv) hstep (prior_mem h hcursors hw)
      have hle := ih v hv
      omega
  refine ⟨(max + 1) * (cursors.card + 1), le_rfl, ?_⟩
  cases hw : ws ((max + 1) * (cursors.card + 1)) with
  | none => rfl
  | some w =>
    have hle := hspent _ w hw
    rw [Nat.add_mul, Nat.one_mul] at hle
    omega

end

end AutomlApi.Walking
