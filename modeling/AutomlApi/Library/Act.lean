import Mathlib.Data.List.Basic

/-! Programs over a state that may raise. What a program has written before it raises
stays written, as with objects that an interpreter updates in place. -/



namespace AutomlApi

/-- A program: from a state, its value or the fault it raises, and the state then. -/
def Act (σ ε α : Type) := σ → Except ε α × σ

namespace Act

variable {σ ε α β : Type}

instance : Monad (Act σ ε) where
  pure a := fun s => (.ok a, s)
  bind m k := fun s =>
    match m s with
    | (.ok a, s') => k a s'
    | (.error e, s') => (.error e, s')

def get : Act σ ε σ := fun s => (.ok s, s)

def modify (f : σ → σ) : Act σ ε Unit := fun s => (.ok (), f s)

def raise (e : ε) : Act σ ε α := fun s => (.error e, s)

/-- A check that reads no state. -/
def check (r : Except ε α) : Act σ ε α := fun s => (r, s)

/-- Whatever `m` raises, `cleanup` runs before it is raised again. -/
def onError (m : Act σ ε α) (cleanup : σ → σ) : Act σ ε α := fun s =>
  match m s with
  | (.ok a, s') => (.ok a, s')
  | (.error e, s') => (.error e, cleanup s')

/-! ### Programs that raise before they write -/

/-- Whenever `m` raises, the state it leaves is related to the one it started in. -/
def Clean (R : σ → σ → Prop) (m : Act σ ε α) : Prop :=
  ∀ s e s', m s = (.error e, s') → R s s'

/-- `m` raises nothing. -/
def Total (m : Act σ ε α) : Prop := ∀ s e s', m s ≠ (.error e, s')

/-- Whatever `m` does is within `R`. -/
def Within (R : σ → σ → Prop) (m : Act σ ε α) : Prop := ∀ s, R s (m s).2

variable {R : σ → σ → Prop} {m : Act σ ε α} {k : α → Act σ ε β}

theorem bind_eq (m : Act σ ε α) (k : α → Act σ ε β) (s : σ) :
    (m >>= k) s = match m s with
      | (.ok a, s') => k a s'
      | (.error e, s') => (.error e, s') := rfl

theorem bind_of_ok {s s' : σ} {a : α} (h : m s = (.ok a, s')) : (m >>= k) s = k a s' := by
  rw [bind_eq, h]

theorem bind_of_error {s s' : σ} {e : ε} (h : m s = (.error e, s')) : (m >>= k) s = (.error e, s') := by
  rw [bind_eq, h]

theorem bind_eq_ok {s s'' : σ} {b : β} (h : (m >>= k) s = (.ok b, s'')) :
    ∃ a s', m s = (.ok a, s') ∧ k a s' = (.ok b, s'') := by
  rw [bind_eq] at h
  cases hs : m s with
  | mk r s' =>
    rw [hs] at h
    cases r with
    | ok a => exact ⟨a, s', rfl, h⟩
    | error e => cases h

/-- A program that raises does so in its first part or in its second. -/
theorem bind_eq_error {s s'' : σ} {e : ε} (h : (m >>= k) s = (.error e, s'')) :
    m s = (.error e, s'') ∨ ∃ a s', m s = (.ok a, s') ∧ k a s' = (.error e, s'') := by
  rw [bind_eq] at h
  cases hs : m s with
  | mk r s' =>
    rw [hs] at h
    cases r with
    | ok a => exact .inr ⟨a, s', rfl, h⟩
    | error e' => cases h; exact .inl rfl

theorem check_bind (r : Except ε α) (k : α → Act σ ε β) (s : σ) :
    (check r >>= k) s = match r with
      | .ok a => k a s
      | .error e => (.error e, s) := by
  cases r <;> rfl

theorem check_ok_bind (a : α) (k : α → Act σ ε β) (s : σ) : (check (.ok a) >>= k) s = k a s := rfl

theorem check_error_bind (e : ε) (k : α → Act σ ε β) (s : σ) : (check (.error e) >>= k) s = (.error e, s) := rfl

theorem get_bind (k : σ → Act σ ε β) (s : σ) : (get >>= k) s = k s s := rfl

theorem modify_bind (f : σ → σ) (k : Unit → Act σ ε β) (s : σ) : (modify f >>= k) s = k () (f s) := rfl

theorem check_bind_ok {r : Except ε α} {k : α → Act σ ε β} {s s' : σ} {b : β}
    (h : (check r >>= k) s = (.ok b, s')) : ∃ a, r = .ok a ∧ k a s = (.ok b, s') := by
  cases r with
  | ok a => exact ⟨a, rfl, h⟩
  | error e => cases h

/-- From `s` the program returns. -/
def Succeeds (m : Act σ ε α) (s : σ) : Prop := ∃ a s', m s = (.ok a, s')

theorem succeeds_congr {m' : Act σ ε α} {s s' : σ} (h : m s = m' s') : Succeeds m s ↔ Succeeds m' s' := by
  simp only [Succeeds, h]

theorem succeeds_pure (a : α) (s : σ) : Succeeds (pure a : Act σ ε α) s := ⟨a, s, rfl⟩

theorem succeeds_check_bind {r : Except ε α} {k : α → Act σ ε β} {s : σ} :
    Succeeds (check r >>= k) s ↔ ∃ a, r = .ok a ∧ Succeeds (k a) s := by
  constructor
  · rintro ⟨b, s', h⟩
    obtain ⟨a, rfl, h⟩ := check_bind_ok h
    exact ⟨a, rfl, b, s', h⟩
  · rintro ⟨a, rfl, h⟩
    exact h

theorem succeeds_bind_of_eq {s s' : σ} {a : α} (h : m s = (.ok a, s')) :
    Succeeds (m >>= k) s ↔ Succeeds (k a) s' := by
  simp only [Succeeds, bind_eq, h]

theorem not_succeeds {s s' : σ} {e : ε} (h : m s = (.error e, s')) : ¬ Succeeds m s := by
  simp [Succeeds, h]

theorem not_succeeds_bind {s s' : σ} {e : ε} (h : m s = (.error e, s')) : ¬ Succeeds (m >>= k) s := by
  simp [Succeeds, bind_eq, h]

theorem succeeds_bind_pure {f : α → β} {s : σ} :
    Succeeds (m >>= fun a => pure (f a)) s ↔ Succeeds m s := by
  constructor
  · rintro ⟨b, s', h⟩
    obtain ⟨a, s₁, h, -⟩ := bind_eq_ok h
    exact ⟨a, s₁, h⟩
  · rintro ⟨a, s', h⟩
    exact (succeeds_bind_of_eq h).mpr (succeeds_pure _ _)

theorem total_pure (a : α) : Total (pure a : Act σ ε α) := fun s e s' h => by cases h

theorem total_modify (f : σ → σ) : Total (modify f : Act σ ε Unit) := fun s e s' h => by cases h

theorem total_bind (hm : Total m) (hk : ∀ a, Total (k a)) : Total (m >>= k) := by
  intro s e s' h
  rcases bind_eq_error h with h | ⟨a, s₁, -, h⟩
  · exact hm s e s' h
  · exact hk a s₁ e s' h

theorem Total.clean (h : Total m) : Clean R m := fun s e s' hm => absurd hm (h s e s')

theorem Within.clean (h : Within R m) : Clean R m := fun s e s' hm => by
  have := h s
  rwa [hm] at this

theorem within_check (hR : ∀ s, R s s) (r : Except ε α) : Within R (check r : Act σ ε α) := fun s => hR s

theorem within_get (hR : ∀ s, R s s) : Within R (get : Act σ ε σ) := fun s => hR s

theorem within_raise (hR : ∀ s, R s s) (e : ε) : Within R (raise e : Act σ ε α) := fun s => hR s

theorem within_pure (hR : ∀ s, R s s) (a : α) : Within R (pure a : Act σ ε α) := fun s => hR s

theorem within_bind (hR : ∀ s t u, R s t → R t u → R s u) (hm : Within R m) (hk : ∀ a, Within R (k a)) :
    Within R (m >>= k) := by
  intro s
  rw [bind_eq]
  have hs := hm s
  revert hs
  cases m s with
  | mk r s₁ =>
    cases r with
    | ok a => exact fun hs => hR _ _ _ hs (hk a s₁)
    | error e => exact id

/-- A program that only writes after its last check. -/
theorem clean_bind (hR : ∀ s t u, R s t → R t u → R s u) (hm : Within R m) (hk : ∀ a, Clean R (k a)) :
    Clean R (m >>= k) := by
  intro s e s' h
  have hs := hm s
  rcases bind_eq_error h with h | ⟨a, s₁, h, hk'⟩
  · rwa [h] at hs
  · rw [h] at hs
    exact hR _ _ _ hs (hk a s₁ e s' hk')

/-- A program that is clean up to the last part that raises. -/
theorem clean_bind_total (hm : Clean R m) (hk : ∀ a, Total (k a)) : Clean R (m >>= k) := by
  intro s e s' h
  rcases bind_eq_error h with h | ⟨a, s₁, -, h⟩
  · exact hm s e s' h
  · exact absurd h (hk a s₁ e s')

theorem within_onError (hR : ∀ s t u, R s t → R t u → R s u) (hm : Within R m) {cleanup : σ → σ}
    (hc : ∀ s, R s (cleanup s)) : Within R (onError m cleanup) := by
  intro s
  have hs := hm s
  unfold onError
  revert hs
  cases m s with
  | mk r s₁ =>
    cases r with
    | ok a => exact id
    | error e => exact fun hs => hR _ _ _ hs (hc s₁)

theorem onError_eq_error {cleanup : σ → σ} {s s' : σ} {e : ε} (h : onError m cleanup s = (.error e, s')) :
    ∃ s₁, m s = (.error e, s₁) ∧ s' = cleanup s₁ := by
  unfold onError at h
  cases hs : m s with
  | mk r s₁ =>
    rw [hs] at h
    cases r with
    | ok a => cases h
    | error e' => cases h; exact ⟨s₁, rfl, rfl⟩

end Act

end AutomlApi
