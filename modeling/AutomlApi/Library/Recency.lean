import Mathlib.Data.List.Sort

/-! Which items of a list stay when a number of the greatest are kept, in the order they
have. The list is in the order in which its items came in; the greatest are those that
came in last exactly where the order of the items agrees with that. -/

namespace AutomlApi.Recency

variable {α : Type*} [LinearOrder α]

/-- The items beyond the `k` greatest, the greatest of them first. -/
def beyond (k : ℕ) (l : List α) : List α := (l.insertionSort fun a b => b ≤ a).drop k

def greatest (k : ℕ) (l : List α) : List α := l.filter fun x => x ∉ beyond k l

section
variable {β : Type*}

/-- The items that came in before the last `k`. -/
def older (k : ℕ) (l : List β) : List β := l.take (l.length - k)

/-- The last `k` items. -/
def newest (k : ℕ) (l : List β) : List β := l.drop (l.length - k)

@[simp] theorem older_append_newest (k : ℕ) (l : List β) : older k l ++ newest k l = l := List.take_append_drop _ _

theorem length_newest (k : ℕ) (l : List β) : (newest k l).length = min k l.length := by
  rw [newest, List.length_drop]
  omega

/-- The item that came in last is among the newest. -/
theorem mem_newest {k : ℕ} (hk : 0 < k) (l : List β) (x : β) : x ∈ newest k (l ++ [x]) := by
  rw [newest, List.length_append, List.length_singleton, List.drop_append_of_le_length (by omega)]
  simp

end

/-- Each of the last `k` items is greater than each of those before. -/
def Agrees (k : ℕ) (l : List α) : Prop := ∀ old ∈ older k l, ∀ new ∈ newest k l, old < new

instance (k : ℕ) (l : List α) : Decidable (Agrees k l) :=
  inferInstanceAs (Decidable (∀ old ∈ older k l, ∀ new ∈ newest k l, old < new))

theorem pairwise_sort {l : List α} (h : l.Nodup) : (l.insertionSort fun a b => b ≤ a).Pairwise (· > ·) := by
  have hperm := List.perm_insertionSort (fun a b : α => b ≤ a) l
  refine ((List.pairwise_insertionSort (fun a b : α => b ≤ a) l).and (hperm.nodup_iff.mpr h)).imp ?_
  rintro a b ⟨hle, hne⟩
  exact lt_of_le_of_ne hle (Ne.symm hne)

/-- The items of two parts are sorted part after part where the one part is above the other. -/
theorem sort_append {l l' : List α} (h : ∀ a ∈ l, ∀ b ∈ l', a < b) :
    (l ++ l').insertionSort (fun a b => b ≤ a) =
      l'.insertionSort (fun a b => b ≤ a) ++ l.insertionSort (fun a b => b ≤ a) := by
  have hleft := List.perm_insertionSort (fun a b : α => b ≤ a) l
  have hright := List.perm_insertionSort (fun a b : α => b ≤ a) l'
  have hperm := (List.perm_insertionSort (fun a b : α => b ≤ a) (l ++ l')).trans
    (List.perm_append_comm.trans (hright.append hleft).symm)
  refine hperm.eq_of_pairwise' (List.pairwise_insertionSort _ _) (List.pairwise_append.mpr ⟨?_, ?_, ?_⟩)
  · exact List.pairwise_insertionSort _ _
  · exact List.pairwise_insertionSort _ _
  · intro b hb a ha
    exact (h a (hleft.mem_iff.mp ha) b (hright.mem_iff.mp hb)).le

theorem mem_beyond_of_agrees {k : ℕ} {l : List α} (h : Agrees k l) (x : α) : x ∈ beyond k l ↔ x ∈ older k l := by
  have hsort := sort_append h
  rw [older_append_newest] at hsort
  rw [beyond, hsort, List.drop_append, List.length_insertionSort, length_newest]
  rcases Nat.le_total k l.length with hk | hk
  · rw [min_eq_left hk, Nat.sub_self, List.drop_zero, List.drop_eq_nil_of_le, List.nil_append,
      List.mem_insertionSort]
    rw [List.length_insertionSort, length_newest, min_eq_left hk]
  · have hnone : older k l = [] := by rw [older, Nat.sub_eq_zero_of_le hk, List.take_zero]
    rw [hnone, List.insertionSort_nil, List.drop_nil, List.append_nil, List.drop_eq_nil_of_le]
    rw [List.length_insertionSort, length_newest]
    exact min_le_left _ _

/-- The greatest are the newest exactly where the two orders agree. -/
theorem greatest_eq_newest_iff {k : ℕ} {l : List α} (h : l.Nodup) : greatest k l = newest k l ↔ Agrees k l := by
  have hparts : (older k l ++ newest k l).Nodup := by rwa [older_append_newest]
  have hdisjoint : ∀ x ∈ older k l, x ∉ newest k l := fun x hx hx' => List.disjoint_of_nodup_append hparts hx hx'
  constructor
  · intro heq old hold new hnew
    have hmem : ∀ x ∈ l, x ∉ beyond k l ↔ x ∈ newest k l := fun x hx => by
      rw [← heq, greatest, List.mem_filter]
      simp [hx]
    have hin : ∀ x, x ∈ older k l ∨ x ∈ newest k l → x ∈ l := fun x hx => by
      rw [← older_append_newest k l]
      exact List.mem_append.mpr hx
    have hgoes : old ∈ beyond k l := by
      by_contra hstays
      exact hdisjoint old hold ((hmem old (hin old (.inl hold))).mp hstays)
    have hstays : new ∉ beyond k l := (hmem new (hin new (.inr hnew))).mpr hnew
    -- the sorted list is split where the `k` greatest end
    have hsorted := pairwise_sort h
    rw [← List.take_append_drop k (l.insertionSort fun a b => b ≤ a)] at hsorted
    have hfront : new ∈ (l.insertionSort fun a b => b ≤ a).take k := by
      have hsort : new ∈ l.insertionSort fun a b => b ≤ a :=
        (List.mem_insertionSort _).mpr (hin new (.inr hnew))
      rw [← List.take_append_drop k (l.insertionSort fun a b => b ≤ a)] at hsort
      exact (List.mem_append.mp hsort).resolve_right hstays
    exact (List.pairwise_append.mp hsorted).2.2 new hfront old hgoes
  · intro hagrees
    have hfilter : greatest k l = l.filter fun x => x ∉ older k l := by
      refine List.filter_congr fun x _ => ?_
      simp only [mem_beyond_of_agrees hagrees]
    have hnewest : (newest k l).filter (fun x => x ∉ older k l) = newest k l :=
      List.filter_eq_self.mpr fun x hx => decide_eq_true fun hx' => hdisjoint x hx' hx
    have holder : (older k l).filter (fun x => x ∉ older k l) = [] :=
      List.filter_eq_nil_iff.mpr fun x hx => by simpa using hx
    have hsplit : l.filter (fun x => x ∉ older k l) =
        (older k l).filter (fun x => x ∉ older k l) ++ (newest k l).filter (fun x => x ∉ older k l) := by
      rw [← List.filter_append, older_append_newest]
    rw [hfilter, hsplit, holder, hnewest, List.nil_append]

end AutomlApi.Recency
