import Mathlib.Data.List.Basic

/-! Programs whose writes are durable one by one. A program reads the state, raises,
and writes records; a record changes the state as `Replay.apply` says. A process
that dies in the middle of a program leaves the state after some of its records. -/

namespace AutomlApi

/-- States that are changed by records. -/
class Replay (σ ω : Type) where
  apply : σ → ω → σ

section Replay

variable {σ ω : Type} [Replay σ ω]

/-- The state after the records `l`. -/
def replay (s : σ) (l : List ω) : σ := l.foldl Replay.apply s

@[simp] theorem replay_nil (s : σ) : replay s ([] : List ω) = s := rfl

@[simp] theorem replay_cons (s : σ) (w : ω) (l : List ω) : replay s (w :: l) = replay (Replay.apply s w) l := rfl

theorem replay_append (s : σ) (l l' : List ω) : replay s (l ++ l') = replay (replay s l) l' := List.foldl_append

/-- What every record preserves, the records of a list preserve. -/
theorem replay_keeps {P : σ → Prop} {l : List ω} (h : ∀ s, ∀ w ∈ l, P s → P (Replay.apply s w)) {s : σ}
    (hs : P s) : P (replay s l) := by
  induction l generalizing s with
  | nil => exact hs
  | cons w l ih =>
    exact ih (fun s x hx => h s x (List.mem_cons_of_mem w hx)) (h s w List.mem_cons_self hs)

/-- A projection that the quiet records leave alone sees only the loud ones. -/
theorem replay_filter {κ : Type} [Replay κ ω] (π : σ → κ) (loud : ω → Bool)
    (hloud : ∀ s w, loud w → π (Replay.apply s w) = Replay.apply (π s) w)
    (hquiet : ∀ s w, loud w = false → π (Replay.apply s w) = π s) (s : σ) (l : List ω) :
    π (replay s l) = replay (π s) (l.filter loud) := by
  induction l generalizing s with
  | nil => rfl
  | cons w l ih =>
    rw [replay_cons, ih]
    cases hw : loud w with
    | true => rw [List.filter_cons_of_pos hw, replay_cons, hloud s w hw]
    | false => rw [List.filter_cons_of_neg (by simp [hw]), hquiet s w hw]

/-- Every record satisfies `p` in the state that it is written in. -/
def Along (p : σ → ω → Prop) : σ → List ω → Prop
  | _, [] => True
  | s, w :: l => p s w ∧ Along p (Replay.apply s w) l

variable {p q : σ → ω → Prop} {P : σ → Prop} {s : σ} {l : List ω}

theorem along_append {l' : List ω} (h : Along p s l) (h' : Along p (replay s l) l') : Along p s (l ++ l') := by
  induction l generalizing s with
  | nil => exact h'
  | cons w l ih => exact ⟨h.1, ih h.2 h'⟩

theorem along_append_iff {l' : List ω} : Along p s (l ++ l') ↔ Along p s l ∧ Along p (replay s l) l' := by
  induction l generalizing s with
  | nil => simp [Along, replay]
  | cons w l ih => simp [Along, ih, and_assoc]

theorem Along.mono (h : Along p s l) (hpq : ∀ s w, p s w → q s w) : Along q s l := by
  induction l generalizing s with
  | nil => trivial
  | cons w l ih => exact ⟨hpq _ _ h.1, ih h.2⟩

theorem Along.and (h : Along p s l) (h' : Along q s l) : Along (fun s w => p s w ∧ q s w) s l := by
  induction l generalizing s with
  | nil => trivial
  | cons w l ih => exact ⟨⟨h.1, h'.1⟩, ih h.2 h'.2⟩

theorem Along.take (h : Along p s l) (n : ℕ) : Along p s (l.take n) := by
  induction l generalizing s n with
  | nil => rw [List.take_nil]; trivial
  | cons w l ih =>
    cases n with
    | zero => trivial
    | succ n => exact ⟨h.1, ih h.2 n⟩

/-- What every record preserves in its place, all of them preserve. -/
theorem Along.keeps (h : Along p s l) (hp : ∀ s w, P s → p s w → P (Replay.apply s w)) (hs : P s) :
    P (replay s l) := by
  induction l generalizing s with
  | nil => exact hs
  | cons w l ih => exact ih h.2 (hp s w hs h.1)

/-- What every record preserves in its place holds wherever a record is written. -/
theorem Along.within (h : Along p s l) (hp : ∀ s w, P s → p s w → P (Replay.apply s w)) (hs : P s) :
    Along (fun s w => P s ∧ p s w) s l := by
  induction l generalizing s with
  | nil => trivial
  | cons w l ih => exact ⟨⟨hs, h.1⟩, ih h.2 (hp s w hs h.1)⟩

/-- A condition that does not read the state. -/
theorem along_iff {r : ω → Prop} : Along (fun _ => r) s l ↔ ∀ w ∈ l, r w := by
  induction l generalizing s with
  | nil => simp [Along]
  | cons w l ih => simp [Along, ih]

/-- The states in which the records are written. -/
def trail : σ → List ω → List σ
  | _, [] => []
  | s, w :: l => s :: trail (Replay.apply s w) l

section Trail

variable {R : σ → σ → Prop}

/-- A preorder that every record climbs is climbed to the end of the records. -/
theorem Along.climbs (h : Along (fun s w => R s (Replay.apply s w)) s l) (hrefl : ∀ s, R s s)
    (htrans : ∀ s t u, R s t → R t u → R s u) : R s (replay s l) := by
  induction l generalizing s with
  | nil => exact hrefl s
  | cons w l ih => exact htrans _ _ _ h.1 (ih h.2)

/-- The states of the trail come one after the other, between the start and the end. -/
theorem Along.climbs_trail (h : Along (fun s w => R s (Replay.apply s w)) s l) (hrefl : ∀ s, R s s)
    (htrans : ∀ s t u, R s t → R t u → R s u) :
    (trail s l).Pairwise R ∧ ∀ u ∈ trail s l, R s u ∧ R u (replay s l) := by
  induction l generalizing s with
  | nil => exact ⟨.nil, fun u hu => absurd hu List.not_mem_nil⟩
  | cons w l ih =>
    obtain ⟨hpairs, hbetween⟩ := ih h.2
    refine ⟨List.pairwise_cons.mpr ⟨fun u hu => htrans _ _ _ h.1 (hbetween u hu).1, hpairs⟩, fun u hu => ?_⟩
    rcases List.mem_cons.mp hu with rfl | hu
    · exact ⟨hrefl _, h.climbs hrefl htrans⟩
    · exact ⟨htrans _ _ _ h.1 (hbetween u hu).1, (hbetween u hu).2⟩

end Trail

end Replay

/-- A program: from a state, its value or the fault it raises, and its records. -/
def Durable (σ ω ε α : Type) := σ → Except ε α × List ω

namespace Durable

variable {σ ω ε α β : Type}

instance [Replay σ ω] : Monad (Durable σ ω ε) where
  pure a := fun _ => (.ok a, [])
  bind m k := fun s =>
    match m s with
    | (.ok a, l) => ((k a (replay s l)).1, l ++ (k a (replay s l)).2)
    | (.error e, l) => (.error e, l)

def read : Durable σ ω ε σ := fun s => (.ok s, [])

def write (w : ω) : Durable σ ω ε Unit := fun _ => (.ok (), [w])

def raise (e : ε) : Durable σ ω ε α := fun _ => (.error e, [])

/-- A check that reads no state. -/
def check (r : Except ε α) : Durable σ ω ε α := fun _ => (r, [])

/-- What the program raises is its value. -/
def attempt {ε' : Type} (m : Durable σ ω ε α) : Durable σ ω ε' (Except ε α) := fun s => (.ok (m s).1, (m s).2)

variable [Replay σ ω]

/-- The state that a program leaves. -/
def final (m : Durable σ ω ε α) (s : σ) : σ := replay s (m s).2

/-- The state that a program leaves when it is cut off after `n` records. -/
def cut (m : Durable σ ω ε α) (n : ℕ) (s : σ) : σ := replay s ((m s).2.take n)

variable {m : Durable σ ω ε α} {k : α → Durable σ ω ε β}

theorem bind_eq (m : Durable σ ω ε α) (k : α → Durable σ ω ε β) (s : σ) :
    (m >>= k) s = match m s with
      | (.ok a, l) => ((k a (replay s l)).1, l ++ (k a (replay s l)).2)
      | (.error e, l) => (.error e, l) := rfl

/-- A first part that returns is followed by the rest. -/
theorem bind_of_ok {a : α} {s : σ} {l : List ω} (hm : m s = (.ok a, l)) :
    (m >>= k) s = ((k a (replay s l)).1, l ++ (k a (replay s l)).2) := by
  rw [bind_eq, hm]

theorem pure_eq (a : α) (s : σ) : (pure a : Durable σ ω ε α) s = (.ok a, []) := rfl

theorem read_bind (k : σ → Durable σ ω ε β) (s : σ) : (read >>= k) s = k s s := rfl

theorem value_bind {a : α} {s : σ} (hm : (m s).1 = .ok a) : ((m >>= k) s).1 = (k a (m.final s)).1 := by
  unfold final
  rw [bind_eq]
  cases h : m s with
  | mk r l =>
    rw [h] at hm
    cases hm
    rfl

/-- A program that returns went through its first part. -/
theorem value_bind_eq_ok {s : σ} {b : β} (h : ((m >>= k) s).1 = .ok b) :
    ∃ a, (m s).1 = .ok a ∧ (k a (m.final s)).1 = .ok b := by
  unfold final
  rw [bind_eq] at h
  cases hm : m s with
  | mk r l =>
    rw [hm] at h
    cases r with
    | ok a => exact ⟨a, rfl, h⟩
    | error e => cases h

theorem attempt_bind {ε' : Type} (m : Durable σ ω ε α) (k : Except ε α → Durable σ ω ε' β) (s : σ) :
    (m.attempt >>= k) s = ((k (m s).1 (m.final s)).1, (m s).2 ++ (k (m s).1 (m.final s)).2) := rfl

/-! ### What a program writes -/

/-- From `s` the program only writes records that satisfy `p` where they are written. -/
def Writes (p : σ → ω → Prop) (m : Durable σ ω ε α) (s : σ) : Prop := Along p s (m s).2

section Writes

variable {p : σ → ω → Prop} {s : σ}

theorem writes_pure (a : α) : Writes p (pure a : Durable σ ω ε α) s := trivial

theorem writes_read : Writes p (read : Durable σ ω ε σ) s := trivial

theorem writes_raise (e : ε) : Writes p (raise e : Durable σ ω ε α) s := trivial

theorem writes_check (r : Except ε α) : Writes p (check r : Durable σ ω ε α) s := trivial

theorem writes_write {w : ω} (h : p s w) : Writes p (write w : Durable σ ω ε Unit) s := ⟨h, trivial⟩

theorem writes_bind (hm : Writes p m s) (hk : ∀ a, (m s).1 = .ok a → Writes p (k a) (m.final s)) :
    Writes p (m >>= k) s := by
  unfold Writes final at *
  rw [bind_eq]
  cases h : m s with
  | mk r l =>
    rw [h] at hm hk
    cases r with
    | error e => exact hm
    | ok a => exact along_append hm (hk a rfl)

theorem writes_read_bind {k : σ → Durable σ ω ε β} (h : Writes p (k s) s) : Writes p (read >>= k) s := by
  unfold Writes
  rw [read_bind]
  exact h

theorem Writes.mono {q : σ → ω → Prop} (h : Writes p m s) (hpq : ∀ s w, p s w → q s w) : Writes q m s :=
  Along.mono h hpq

/-- What every record preserves in its place holds wherever the program is cut off. -/
theorem Writes.cut {P : σ → Prop} (h : Writes p m s) (hp : ∀ s w, P s → p s w → P (Replay.apply s w)) (hs : P s)
    (n : ℕ) : P (m.cut n s) := (h.take n).keeps hp hs

theorem Writes.final {P : σ → Prop} (h : Writes p m s) (hp : ∀ s w, P s → p s w → P (Replay.apply s w))
    (hs : P s) : P (m.final s) := h.keeps hp hs

end Writes

/-! ### How a program ends -/

section Ends

/-- From `s` the program writes records that satisfy `p` where they are written, and its
value and the state that it leaves are as `Q` says. -/
def Ends (p : σ → ω → Prop) (m : Durable σ ω ε α) (s : σ) (Q : Except ε α → σ → Prop) : Prop :=
  Writes p m s ∧ Q (m s).1 (m.final s)

variable {p : σ → ω → Prop} {s : σ} {Q : Except ε α → σ → Prop}

theorem Ends.mono {Q' : Except ε α → σ → Prop} (h : Ends p m s Q) (hQ : ∀ r t, Q r t → Q' r t) : Ends p m s Q' :=
  ⟨h.1, hQ _ _ h.2⟩

theorem ends_pure {a : α} (h : Q (.ok a) s) : Ends p (pure a : Durable σ ω ε α) s Q := ⟨trivial, h⟩

theorem ends_read {Q : Except ε σ → σ → Prop} (h : Q (.ok s) s) : Ends p (read : Durable σ ω ε σ) s Q := ⟨trivial, h⟩

theorem ends_raise {e : ε} (h : Q (.error e) s) : Ends p (raise e : Durable σ ω ε α) s Q := ⟨trivial, h⟩

theorem ends_check {r : Except ε α} (h : Q r s) : Ends p (check r : Durable σ ω ε α) s Q := ⟨trivial, h⟩

theorem ends_write {w : ω} {Q : Except ε Unit → σ → Prop} (hw : p s w) (h : Q (.ok ()) (Replay.apply s w)) :
    Ends p (write w : Durable σ ω ε Unit) s Q := ⟨⟨hw, trivial⟩, h⟩

theorem ends_bind {Q : Except ε β → σ → Prop} (h : Ends p m s fun r t =>
    match r with
    | .ok a => Ends p (k a) t Q
    | .error e => Q (.error e) t) : Ends p (m >>= k) s Q := by
  obtain ⟨hm, hk⟩ := h
  refine ⟨writes_bind hm fun a ha => ?_, ?_⟩
  · rw [ha] at hk
    exact hk.1
  · unfold final at *
    rw [bind_eq]
    cases hr : m s with
    | mk r l =>
      rw [hr] at hk
      cases r with
      | error e => exact hk
      | ok a =>
        have hq := hk.2
        unfold final at hq
        dsimp only at hq ⊢
        rw [replay_append]
        exact hq

theorem ends_attempt {ε' : Type} {Q : Except ε' (Except ε α) → σ → Prop} (h : Ends p m s fun r t => Q (.ok r) t) :
    Ends p (m.attempt : Durable σ ω ε' (Except ε α)) s Q := h

end Ends

/-! ### What a program says

The loud records of a program, with its value. -/

section Says

variable (loud : ω → Bool)

/-- From `s` the program ends in a value or a fault, with the loud records that `Q` allows. -/
def Says (m : Durable σ ω ε α) (s : σ) (Q : Except ε α → List ω → Prop) : Prop :=
  Q (m s).1 ((m s).2.filter loud)

variable {loud} {s : σ} {Q : Except ε β → List ω → Prop}

theorem says_bind (h : Says loud m s fun r l =>
    match r with
    | .ok a => Says loud (k a) (m.final s) fun r' l' => Q r' (l ++ l')
    | .error e => Q (.error e) l) : Says loud (m >>= k) s Q := by
  unfold Says final at h
  unfold Says
  rw [bind_eq]
  cases hm : m s with
  | mk r l =>
    rw [hm] at h
    cases r with
    | error e => exact h
    | ok a =>
      dsimp only at h ⊢
      rw [List.filter_append]
      exact h

/-- A first part that returns. -/
theorem says_bind_ok {a : α} {l : List ω} (hm : m s = (.ok a, l))
    (h : Says loud (k a) (replay s l) fun r l' => Q r (l.filter loud ++ l')) : Says loud (m >>= k) s Q := by
  refine says_bind ?_
  simp only [Says, final, hm] at h ⊢
  exact h

/-- A first part that raises. -/
theorem says_bind_error {e : ε} {l : List ω} (hm : m s = (.error e, l)) (h : Q (.error e) (l.filter loud)) :
    Says loud (m >>= k) s Q := by
  refine says_bind ?_
  simp only [Says, hm]
  exact h

theorem says_pure_bind {a : α} (h : Says loud (k a) s Q) : Says loud (pure a >>= k) s Q := says_bind_ok rfl h

omit [Replay σ ω] in
theorem Says.mono {Q Q' : Except ε α → List ω → Prop} (h : Says loud m s Q) (hQ : ∀ r l, Q r l → Q' r l) :
    Says loud m s Q' := hQ _ _ h

end Says

end Durable

end AutomlApi
