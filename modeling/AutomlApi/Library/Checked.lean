import Mathlib.Data.List.Basic

/-! Computations that check and may fail. What one returned says that each of its
checks passed, one after the other. -/

namespace AutomlApi

section Checked

variable {ε α β : Type}

/-- Fail with `e` where `c` holds. -/
def refuse (e : ε) (c : Prop) [Decidable c] : Except ε Unit := if c then .error e else .ok ()

theorem except_bind_eq_ok {m : Except ε α} {k : α → Except ε β} {b : β} (h : (m >>= k) = .ok b) :
    ∃ a, m = .ok a ∧ k a = .ok b := by
  cases m with
  | error e => cases h
  | ok a => exact ⟨a, rfl, h⟩

theorem except_bind_eq_error {m : Except ε α} {k : α → Except ε β} {e : ε} (h : (m >>= k) = .error e) :
    m = .error e ∨ ∃ a, m = .ok a ∧ k a = .error e := by
  cases m with
  | error e' =>
    cases h
    exact .inl rfl
  | ok a => exact .inr ⟨a, rfl, h⟩

theorem except_map_eq_ok {f : α → β} {m : Except ε α} {b : β} (h : m.map f = .ok b) : ∃ a, m = .ok a ∧ f a = b := by
  cases m with
  | error e => cases h
  | ok a => exact ⟨a, rfl, Except.ok.inj h⟩

theorem except_mapError_eq_ok {δ : Type} {f : ε → δ} {m : Except ε α} {a : α} (h : m.mapError f = .ok a) : m = .ok a := by
  cases m with
  | error e => cases h
  | ok b => exact congrArg _ (Except.ok.inj h)

theorem except_mapError_eq_error {δ : Type} {f : ε → δ} {m : Except ε α} {d : δ} (h : m.mapError f = .error d) :
    ∃ e, m = .error e ∧ f e = d := by
  cases m with
  | error e => exact ⟨e, rfl, Except.error.inj h⟩
  | ok a => cases h

theorem except_toOption_eq_some {m : Except ε α} {a : α} (h : m.toOption = some a) : m = .ok a := by
  cases m with
  | error e => cases h
  | ok b => exact congrArg _ (Option.some.inj h)

theorem refuse_bind_eq_ok {e : ε} {c : Prop} [Decidable c] {k : Unit → Except ε β} {b : β}
    (h : (refuse e c >>= k) = .ok b) : ¬ c ∧ k () = .ok b := by
  unfold refuse at h
  split at h
  · cases h
  · next hc => exact ⟨hc, h⟩

theorem refuse_eq_ok {e : ε} {c : Prop} [Decidable c] : refuse e c = .ok () ↔ ¬ c := by
  unfold refuse
  split <;> simp_all

@[simp] theorem except_ok_bind (a : α) (k : α → Except ε β) : (Except.ok a >>= k) = k a := rfl

@[simp] theorem except_error_bind (e : ε) (k : α → Except ε β) : (Except.error e >>= k) = Except.error e := rfl

/-- A loop of checks passes exactly if each of them does. -/
theorem except_forM_eq_ok {f : α → Except ε Unit} {l : List α} : l.forM f = .ok () ↔ ∀ a ∈ l, f a = .ok () := by
  induction l with
  | nil => exact ⟨fun _ _ ha => absurd ha List.not_mem_nil, fun _ => rfl⟩
  | cons a l ih =>
    rw [List.forall_mem_cons, ← ih]
    constructor
    · intro h
      obtain ⟨u, hhead, htail⟩ := except_bind_eq_ok h
      exact ⟨hhead, htail⟩
    · rintro ⟨hhead, htail⟩
      show (f a >>= fun _ => l.forM f) = .ok ()
      rw [hhead]
      exact htail

end Checked

end AutomlApi
