import Mathlib.Algebra.Order.Group.Basic
import Mathlib.Data.List.Sort

/-! Windows that slide along the times of events. The times that are still recent are found
at the end of a log in order, and a log stays capped when each time is added under the cap
of the window that ends with it. -/

namespace AutomlApi.Sliding

variable {α : Type*} [LinearOrder α]

/-- The times after `c`. -/
def recent (c : α) (ts : List α) : List α := ts.filter (c < ·)

/-- The same of a log in order, taken from its front. -/
def expire (c : α) (ts : List α) : List α := ts.dropWhile (· ≤ c)

@[simp] theorem recent_nil (c : α) : recent c [] = [] := rfl

@[simp] theorem recent_append (c : α) (ts us : List α) : recent c (ts ++ us) = recent c ts ++ recent c us :=
  List.filter_append ..

theorem recent_recent {c d : α} (h : c ≤ d) (ts : List α) : recent d (recent c ts) = recent d ts := by
  unfold recent
  rw [List.filter_filter]
  refine List.filter_congr fun t _ => ?_
  by_cases ht : d < t
  · simp [ht, h.trans_lt ht]
  · simp [ht]

theorem recent_eq_nil_iff {c : α} {ts : List α} : recent c ts = [] ↔ ∀ t ∈ ts, t ≤ c := by simp [recent]

theorem expire_eq_recent {c : α} {ts : List α} (h : ts.Pairwise (· ≤ ·)) : expire c ts = recent c ts := by
  induction ts with
  | nil => rfl
  | cons t ts ih =>
    obtain ⟨hhead, htail⟩ := List.pairwise_cons.mp h
    by_cases ht : t ≤ c
    · rw [expire, List.dropWhile_cons_of_pos (by simpa using ht), recent, List.filter_cons_of_neg (by simpa using ht)]
      exact ih htail
    · have hall : ∀ u ∈ t :: ts, c < u := by
        intro u hu
        rcases List.mem_cons.mp hu with rfl | hu
        · exact not_le.mp ht
        · exact (not_le.mp ht).trans_le (hhead u hu)
      rw [expire, List.dropWhile_cons_of_neg (by simpa using ht)]
      exact (List.filter_eq_self.mpr fun u hu => decide_eq_true (hall u hu)).symm

theorem expire_sublist (c : α) (ts : List α) : (expire c ts).Sublist ts := List.dropWhile_sublist _

/-- A log in order whose last time is not recent has none that is. -/
theorem recent_eq_nil_of_last {c : α} {ts : List α} (h : ts.Pairwise (· ≤ ·)) (hlast : ts.getLast?.all (· ≤ c)) :
    recent c ts = [] := by
  rw [recent_eq_nil_iff]
  intro t ht
  obtain ⟨us, u, rfl⟩ := List.eq_nil_or_concat ts |>.resolve_left (List.ne_nil_of_mem ht)
  rw [List.concat_eq_append] at h ht hlast
  have hu : u ≤ c := by simpa using hlast
  rcases List.mem_append.mp ht with ht | ht
  · exact ((List.pairwise_append.mp h).2.2 t ht u List.mem_cons_self).trans hu
  · exact (List.mem_singleton.mp ht).le.trans hu

/-- Fewer times are recent once the oldest of them no longer is. -/
theorem length_recent_lt {c d t : α} {ts : List α} (h : (recent c ts).head? = some t) (hcd : c ≤ d) (ht : t ≤ d) :
    (recent d ts).length < (recent c ts).length := by
  obtain ⟨us, hus⟩ := List.head?_eq_some_iff.mp h
  have hrecent : recent d (t :: us) = recent d us := List.filter_cons_of_neg (by simpa using ht)
  rw [← recent_recent hcd, hus, hrecent, List.length_cons]
  exact Nat.lt_succ_of_le (List.length_filter_le ..)

/-! ### Caps -/

variable [AddCommGroup α] {width : α} {limit : ℕ} {ts : List α}

/-- No half-open window of the width holds more times than the limit. -/
structure Capped (width : α) (limit : ℕ) (ts : List α) : Prop where
  closed_open : ∀ a, (ts.filter fun t => a ≤ t ∧ t < a + width).length ≤ limit
  open_closed : ∀ a, (ts.filter fun t => a < t ∧ t ≤ a + width).length ≤ limit

theorem Capped.nil (width : α) (limit : ℕ) : Capped width limit [] := ⟨fun _ => Nat.zero_le _, fun _ => Nat.zero_le _⟩

/-- What a window with a time at its end holds besides is recent at that time. -/
theorem length_filter_snoc {now : α} {p : α → Bool} (hroom : (recent (now - width) ts).length < limit)
    (hp : p now → ∀ t ∈ ts, p t → now - width < t) (hts : (ts.filter p).length ≤ limit) :
    ((ts ++ [now]).filter p).length ≤ limit := by
  rw [List.filter_append, List.length_append]
  by_cases hnow : p now
  · have hsub : (ts.filter p).length ≤ (recent (now - width) ts).length := by
      rw [recent, ← List.countP_eq_length_filter, ← List.countP_eq_length_filter]
      exact List.countP_mono_left fun t ht hpt => decide_eq_true (hp hnow t ht hpt)
    rw [List.filter_cons_of_pos hnow, List.filter_nil, List.length_singleton]
    omega
  · rwa [List.filter_cons_of_neg hnow, List.filter_nil, List.length_nil, Nat.add_zero]

/-- A time may be added to a log when fewer than the limit are recent. -/
theorem Capped.snoc [IsOrderedAddMonoid α] (h : Capped width limit ts) {now : α} (hroom : (recent (now - width) ts).length < limit) :
    Capped width limit (ts ++ [now]) where
  closed_open a := by
    refine length_filter_snoc hroom (fun hnow t _ ht => ?_) (h.closed_open a)
    simp only [decide_eq_true_eq] at hnow ht
    exact (sub_lt_iff_lt_add.mpr hnow.2).trans_le ht.1
  open_closed a := by
    refine length_filter_snoc hroom (fun hnow t _ ht => ?_) (h.open_closed a)
    simp only [decide_eq_true_eq] at hnow ht
    exact (sub_le_iff_le_add.mpr hnow.2).trans_lt ht.1

end AutomlApi.Sliding
