import Mathlib.Data.List.Basic
import Mathlib.Data.List.Induction

/-! Runs of a labelled transition function. A step may be refused (`none`), and
each label may be subject to a guard that reads the state it is taken in. A run
under the guard that always holds is any history; a run under a stronger guard
is a history every step of which meets a condition. -/

namespace AutomlApi.Runs

variable {σ ε : Type*}

/-- The labels `es`, each allowed by `ok` where it is taken, lead from `s` to `t`. -/
inductive Run (step : σ → ε → Option σ) (ok : σ → ε → Prop) : σ → List ε → σ → Prop
  | nil (s : σ) : Run step ok s [] s
  | cons {s u t : σ} {e : ε} {es : List ε} (hok : ok s e) (hstep : step s e = some u)
      (rest : Run step ok u es t) : Run step ok s (e :: es) t

/-- The guard of an arbitrary history. -/
def Free : σ → ε → Prop := fun _ _ => True

variable {step : σ → ε → Option σ} {ok : σ → ε → Prop}

namespace Run

theorem append {s u t : σ} {es fs : List ε} (h : Run step ok s es u) (h' : Run step ok u fs t) :
    Run step ok s (es ++ fs) t := by
  induction h with
  | nil => exact h'
  | cons hok hstep _ ih => exact .cons hok hstep (ih h')

theorem split {s t : σ} {es fs : List ε} (h : Run step ok s (es ++ fs) t) :
    ∃ u, Run step ok s es u ∧ Run step ok u fs t := by
  induction es generalizing s with
  | nil => exact ⟨s, .nil s, h⟩
  | cons e es ih =>
    cases h with
    | cons hok hstep rest =>
      obtain ⟨u, hl, hr⟩ := ih rest
      exact ⟨u, .cons hok hstep hl, hr⟩

/-- A run through a given label passes through the states around it. -/
theorem split_at {s t : σ} {es fs : List ε} {e : ε} (h : Run step ok s (es ++ e :: fs) t) :
    ∃ u v, Run step ok s es u ∧ ok u e ∧ step u e = some v ∧ Run step ok v fs t := by
  obtain ⟨u, hl, hr⟩ := h.split
  cases hr with
  | cons hok hstep rest => exact ⟨u, _, hl, hok, hstep, rest⟩

theorem mono {ok' : σ → ε → Prop} (himp : ∀ s e, ok s e → ok' s e) {s t : σ} {es : List ε}
    (h : Run step ok s es t) : Run step ok' s es t := by
  induction h with
  | nil => exact .nil _
  | cons hok hstep _ ih => exact .cons (himp _ _ hok) hstep ih

theorem free {s t : σ} {es : List ε} (h : Run step ok s es t) : Run step Free s es t :=
  h.mono fun _ _ _ => trivial

/-- What every allowed step preserves holds at the end of a run that starts in it. -/
theorem invariant {I : σ → Prop} (hstep : ∀ s e u, I s → ok s e → step s e = some u → I u)
    {s t : σ} {es : List ε} (h : Run step ok s es t) (hs : I s) : I t := by
  induction h with
  | nil => exact hs
  | cons hok hu _ ih => exact ih (hstep _ _ _ hs hok hu)

/-- The same with a second invariant already known of every state of the run. -/
theorem invariant_of {J I : σ → Prop} (hJ : ∀ s e u, J s → ok s e → step s e = some u → J u)
    (hstep : ∀ s e u, J s → I s → ok s e → step s e = some u → I u)
    {s t : σ} {es : List ε} (h : Run step ok s es t) (hj : J s) (hs : I s) : I t :=
  (h.invariant (I := fun s => J s ∧ I s)
    (fun s e u hi hok hu => ⟨hJ s e u hi.1 hok hu, hstep s e u hi.1 hi.2 hok hu⟩) ⟨hj, hs⟩).2

/-- What may speak of the labels taken so far, and is handed on by each allowed step. -/
theorem history {I : List ε → σ → Prop} {s t : σ} {es : List ε} (h : Run step ok s es t) (hs : I [] s)
    (hstep : ∀ es u e v, Run step ok s es u → I es u → ok u e → step u e = some v → I (es ++ [e]) v) : I es t := by
  induction es using List.reverseRecOn generalizing t with
  | nil =>
    cases h
    exact hs
  | append_singleton es e ih =>
    obtain ⟨u, v, hl, hok, hu, hr⟩ := h.split_at
    cases hr
    exact hstep es u e t hl (ih hl) hok hu

/-- A preorder that every allowed step climbs is climbed by every run. -/
theorem climbs {R : σ → σ → Prop} (hrefl : ∀ s, R s s) (htrans : ∀ s u t, R s u → R u t → R s t)
    {I : σ → Prop} (hI : ∀ s e u, I s → ok s e → step s e = some u → I u)
    (hstep : ∀ s e u, I s → ok s e → step s e = some u → R s u)
    {s t : σ} {es : List ε} (h : Run step ok s es t) (hs : I s) : R s t := by
  induction h with
  | nil => exact hrefl _
  | cons hok hu _ ih => exact htrans _ _ _ (hstep _ _ _ hs hok hu) (ih (hI _ _ _ hs hok hu))

/-- What does not hold at the start of a run, and holds at its end, comes to hold in a step. -/
theorem turns {P : σ → Prop} {s t : σ} {es : List ε} (h : Run step ok s es t) (hs : ¬ P s) (ht : P t) :
    ∃ es₁ e es₂ u v, es = es₁ ++ e :: es₂ ∧ Run step ok s es₁ u ∧ step u e = some v ∧ Run step ok v es₂ t ∧
      ¬ P u ∧ P v := by
  induction h with
  | nil => exact absurd ht hs
  | @cons s u t e es hok hstep rest ih =>
    by_cases hu : P u
    · exact ⟨[], e, es, s, u, rfl, .nil s, hstep, rest, hs, hu⟩
    · obtain ⟨es₁, e', es₂, u', v, hes, hrun, hstep', hrest, hno, hyes⟩ := ih hu ht
      exact ⟨e :: es₁, e', es₂, u', v, congrArg (e :: ·) hes, .cons hok hstep hrun, hstep', hrest, hno, hyes⟩

end Run

/-! ### What is kept -/

/-- `P` goes on holding where it holds; and if `A` holds too, so does `A`, and `R` is climbed. -/
def Keeps (P A : σ → Prop) (R : σ → σ → Prop) (s t : σ) : Prop := P s → P t ∧ (A s → A t ∧ R s t)

namespace Keeps

variable {P A : σ → Prop} {R : σ → σ → Prop}

theorem refl (hrefl : ∀ s, R s s) (s : σ) : Keeps P A R s s := fun h => ⟨h, fun ha => ⟨ha, hrefl s⟩⟩

theorem trans (htrans : ∀ s t u, R s t → R t u → R s u) (s t u : σ) (h : Keeps P A R s t) (h' : Keeps P A R t u) :
    Keeps P A R s u := fun hs => by
  obtain ⟨ht, hst⟩ := h hs
  obtain ⟨hu, htu⟩ := h' ht
  refine ⟨hu, fun ha => ?_⟩
  obtain ⟨hb, hleft⟩ := hst ha
  obtain ⟨hc, hright⟩ := htu hb
  exact ⟨hc, htrans s t u hleft hright⟩

end Keeps

/-! ### Executions -/

instance (s : σ) (e : ε) : Decidable (Free s e) := inferInstanceAs (Decidable True)

/-- Taking the labels of a history one after the other, each if it is allowed. -/
def exec (step : σ → ε → Option σ) (ok : σ → ε → Prop) [∀ s e, Decidable (ok s e)] :
    σ → List ε → Option σ
  | s, [] => some s
  | s, e :: es => if ok s e then (step s e).bind fun u => exec step ok u es else none

theorem run_of_exec [∀ s e, Decidable (ok s e)] {s t : σ} {es : List ε}
    (h : exec step ok s es = some t) : Run step ok s es t := by
  induction es generalizing s with
  | nil => cases h; exact .nil _
  | cons e es ih =>
    simp only [exec, Option.ite_none_right_eq_some, Option.bind_eq_some_iff] at h
    obtain ⟨hok, u, hu, ht⟩ := h
    exact .cons hok hu (ih ht)

end AutomlApi.Runs
