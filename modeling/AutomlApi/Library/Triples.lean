import AutomlApi.Library.Act

/-! Conditions before and after a program. A triple says where a program ends from the
states of its precondition, whether it returns or raises. -/

namespace AutomlApi

namespace Act

variable {σ ε α β : Type}

/-- From a state of `P` the program returns into `Q` or raises into `E`. -/
def Triple (P : σ → Prop) (m : Act σ ε α) (Q : α → σ → Prop) (E : σ → Prop) : Prop :=
  ∀ s, P s → match m s with
    | (.ok a, s') => Q a s'
    | (.error _, s') => E s'

/-- One program after the other for the items of a list. -/
def each (f : β → Act σ ε Unit) : List β → Act σ ε Unit
  | [] => pure ()
  | x :: xs => do
    f x
    each f xs

variable {P P' : σ → Prop} {Q Q' : α → σ → Prop} {E E' : σ → Prop} {m : Act σ ε α}

theorem Triple.ok (h : Triple P m Q E) {s s' : σ} {a : α} (hs : P s) (hm : m s = (.ok a, s')) : Q a s' := by
  have := h s hs
  rwa [hm] at this

theorem Triple.error (h : Triple P m Q E) {s s' : σ} {e : ε} (hs : P s) (hm : m s = (.error e, s')) : E s' := by
  have := h s hs
  rwa [hm] at this

theorem triple_of (hok : ∀ s a s', P s → m s = (.ok a, s') → Q a s')
    (herror : ∀ s e s', P s → m s = (.error e, s') → E s') : Triple P m Q E := by
  intro s hs
  rcases hm : m s with ⟨a | e, s'⟩
  · exact herror s _ s' hs hm
  · exact hok s _ s' hs hm

theorem Triple.weaken (h : Triple P m Q E) (hP : ∀ s, P' s → P s) (hQ : ∀ a s, Q a s → Q' a s)
    (hE : ∀ s, E s → E' s) : Triple P' m Q' E' :=
  triple_of (fun _ _ _ hs hm => hQ _ _ (h.ok (hP _ hs) hm)) fun _ _ _ hs hm => hE _ (h.error (hP _ hs) hm)

theorem triple_bind {R : β → σ → Prop} {k : α → Act σ ε β} (hm : Triple P m Q E) (hk : ∀ a, Triple (Q a) (k a) R E) :
    Triple P (m >>= k) R E := by
  apply triple_of
  · intro s b s' hs h
    obtain ⟨a, s₁, h₁, h₂⟩ := bind_eq_ok h
    exact (hk a).ok (hm.ok hs h₁) h₂
  · intro s e s' hs h
    rcases bind_eq_error h with h | ⟨a, s₁, h₁, h₂⟩
    · exact hm.error hs h
    · exact (hk a).error (hm.ok hs h₁) h₂

/-- The invariant speaks of the items that are done. -/
theorem triple_each {f : β → Act σ ε Unit} {I : List β → σ → Prop} {l : List β}
    (h : ∀ done x rest, l = done ++ x :: rest → Triple (I done) (f x) (fun _ => I (done ++ [x])) E) :
    ∀ done xs, l = done ++ xs → Triple (I done) (each f xs) (fun _ => I l) E := by
  intro done xs
  induction xs generalizing done with
  | nil =>
    intro hl
    rw [List.append_nil] at hl
    rw [hl]
    exact fun _ hs => hs
  | cons x xs ih =>
    intro hl
    exact triple_bind (h done x xs hl) fun _ => ih (done ++ [x]) (by simpa using hl)

theorem triple_onError {cleanup : σ → σ} (h : Triple P m Q E') (hE : ∀ s, E' s → E (cleanup s)) :
    Triple P (onError m cleanup) Q E := by
  intro s hs
  have hm := h s hs
  unfold onError
  revert hm
  cases m s with
  | mk r s' =>
    cases r with
    | ok a => exact id
    | error e => exact hE s'

end Act

end AutomlApi
