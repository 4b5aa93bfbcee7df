import Mathlib.Data.List.Basic
import Mathlib.Data.List.Nodup
import Mathlib.Data.List.Perm.Basic
import Mathlib.Data.List.Dedup

/-! Elements picked out of a list by their positions, as an array is indexed by an
array of positions, and the two parts into which a mask cuts the positions. -/

namespace AutomlApi.Positions

variable {α β : Type*}

/-- The elements at the positions `ps`, in the order of `ps`. -/
def pick (l : List α) (ps : List ℕ) : List α := ps.filterMap (l[·]?)

/-- Where a mask is set. -/
def nonzero (mask : List Bool) : List ℕ := (List.range mask.length).filter fun i => mask[i]? = some true

theorem pick_cons {l : List α} {p : ℕ} {x : α} (h : l[p]? = some x) (ps : List ℕ) :
    pick l (p :: ps) = x :: pick l ps := by
  simp only [pick, List.filterMap_cons, h]

theorem mem_pick {l : List α} {ps : List ℕ} {x : α} : x ∈ pick l ps ↔ ∃ p ∈ ps, l[p]? = some x := by
  simp only [pick, List.mem_filterMap]

/-- Positions inside the list give one element each. -/
theorem length_pick {l : List α} {ps : List ℕ} (h : ∀ p ∈ ps, p < l.length) :
    (pick l ps).length = ps.length := by
  induction ps with
  | nil => rfl
  | cons p ps ih =>
    have hp := List.getElem?_eq_getElem (h p List.mem_cons_self)
    rw [pick_cons hp, List.length_cons, List.length_cons, ih fun q hq => h q (List.mem_cons_of_mem p hq)]

theorem getElem?_pick {l : List α} {ps : List ℕ} (h : ∀ p ∈ ps, p < l.length) {k p : ℕ}
    (hk : ps[k]? = some p) : (pick l ps)[k]? = l[p]? := by
  induction ps generalizing k with
  | nil => cases hk
  | cons q ps ih =>
    have hq := List.getElem?_eq_getElem (h q List.mem_cons_self)
    rw [pick_cons hq]
    cases k with
    | zero =>
      have hqp : q = p := by simpa using hk
      rw [List.getElem?_cons_zero, ← hqp, hq]
    | succ k =>
      rw [List.getElem?_cons_succ]
      exact ih (fun r hr => h r (List.mem_cons_of_mem q hr)) (by simpa using hk)

theorem pick_map (f : α → β) (l : List α) (ps : List ℕ) : pick (l.map f) ps = (pick l ps).map f := by
  simp only [pick, List.getElem?_map, List.map_filterMap]

/-- Two lists that agree at the positions give the same elements. -/
theorem pick_congr {l l' : List α} {ps : List ℕ} (h : ∀ p ∈ ps, l[p]? = l'[p]?) : pick l ps = pick l' ps :=
  List.filterMap_congr h

theorem pick_range {n : ℕ} {ps : List ℕ} (h : ∀ p ∈ ps, p < n) : pick (List.range n) ps = ps := by
  induction ps with
  | nil => rfl
  | cons p ps ih =>
    rw [pick_cons (List.getElem?_range (h p List.mem_cons_self)), ih fun q hq => h q (List.mem_cons_of_mem p hq)]

theorem pick_all (l : List α) : pick l (List.range l.length) = l := by
  apply List.ext_getElem?
  intro i
  have hlen := length_pick (l := l) fun p hp => List.mem_range.mp hp
  rw [List.length_range] at hlen
  by_cases hi : i < l.length
  · exact getElem?_pick (fun p hp => List.mem_range.mp hp) (List.getElem?_range hi)
  · rw [List.getElem?_eq_none (by omega), List.getElem?_eq_none (by omega)]

theorem mem_nonzero {mask : List Bool} {i : ℕ} : i ∈ nonzero mask ↔ mask[i]? = some true := by
  simp only [nonzero, List.mem_filter, List.mem_range, decide_eq_true_eq, and_iff_right_iff_imp]
  exact fun h => (List.getElem?_eq_some_iff.mp h).1

theorem nodup_nonzero (mask : List Bool) : (nonzero mask).Nodup := List.nodup_range.filter _

theorem mem_nonzero_not {mask : List Bool} {i : ℕ} : i ∈ nonzero (mask.map not) ↔ mask[i]? = some false := by
  rw [mem_nonzero, List.getElem?_map]
  cases mask[i]? <;> simp

/-- A mask and its complement cut the positions in two. -/
theorem nonzero_perm (mask : List Bool) :
    (nonzero (mask.map not) ++ nonzero mask).Perm (List.range mask.length) := by
  refine (List.perm_ext_iff_of_nodup ?_ List.nodup_range).mpr fun i => ?_
  · refine List.Nodup.append (nodup_nonzero _) (nodup_nonzero _) fun i hi hi' => ?_
    rw [mem_nonzero_not] at hi
    rw [mem_nonzero, hi] at hi'
    cases hi'
  · rw [List.mem_append, mem_nonzero_not, mem_nonzero, List.mem_range]
    constructor
    · rintro (h | h) <;> exact (List.getElem?_eq_some_iff.mp h).1
    · intro h
      rw [List.getElem?_eq_getElem h]
      cases mask[i]
      · exact .inl rfl
      · exact .inr rfl

/-! ### First occurrences -/

theorem eraseDupsBy_map (f : α → β) (r : β → β → Bool) (l : List α) :
    (l.map f).eraseDupsBy r = (l.eraseDupsBy fun a b => r (f a) (f b)).map f := by
  induction hn : l.length using Nat.strongRecOn generalizing l with
  | _ n ih =>
    cases l with
    | nil => rfl
    | cons a l =>
      have hlt : (l.filter fun b => r (f b) (f a) = false).length < n := by
        have := List.length_filter_le (fun b => Decidable.decide (r (f b) (f a) = false)) l
        rw [List.length_cons] at hn
        omega
      rw [List.map_cons, List.eraseDupsBy_cons, List.eraseDupsBy_cons, List.map_cons, ← ih _ hlt _ rfl,
        List.filter_map]
      rfl

/-- What is kept depends only on which elements of the list are taken for equal. -/
theorem eraseDupsBy_congr {r r' : α → α → Bool} {l : List α} (h : ∀ a ∈ l, ∀ b ∈ l, r a b = r' a b) :
    l.eraseDupsBy r = l.eraseDupsBy r' := by
  induction hn : l.length using Nat.strongRecOn generalizing l with
  | _ n ih =>
    cases l with
    | nil => rfl
    | cons a l =>
      have hfilter : (l.filter fun b => r b a = false) = l.filter fun b => r' b a = false :=
        List.filter_congr fun b hb => by rw [h b (List.mem_cons_of_mem a hb) a List.mem_cons_self]
      have hlt : (l.filter fun b => r' b a = false).length < n := by
        have := List.length_filter_le (fun b => Decidable.decide (r' b a = false)) l
        rw [List.length_cons] at hn
        omega
      rw [List.eraseDupsBy_cons, List.eraseDupsBy_cons, hfilter, ih _ hlt ?_ rfl]
      intro x hx y hy
      exact h x (List.mem_cons_of_mem a (List.mem_filter.mp hx).1) y (List.mem_cons_of_mem a (List.mem_filter.mp hy).1)

theorem mem_of_mem_eraseDupsBy {r : α → α → Bool} {l : List α} {x : α} (h : x ∈ l.eraseDupsBy r) : x ∈ l := by
  induction hn : l.length using Nat.strongRecOn generalizing l with
  | _ n ih =>
    cases l with
    | nil => exact h
    | cons a l =>
      rw [List.eraseDupsBy_cons, List.mem_cons] at h
      rcases h with rfl | h
      · exact List.mem_cons_self
      · have hlt : (l.filter fun b => r b a = false).length < n := by
          have := List.length_filter_le (fun b => Decidable.decide (r b a = false)) l
          rw [List.length_cons] at hn
          omega
        exact List.mem_cons_of_mem a (List.mem_filter.mp (ih _ hlt h rfl)).1

end AutomlApi.Positions
