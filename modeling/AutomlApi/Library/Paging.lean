import Mathlib.Data.List.Sort
import Mathlib.Order.Basic

/-! Reading a list in pages. Each request is answered in the state of its moment, with
the items of one page and the request for the next one, if there is a next one. Pages
that are cut from one window by the key of their last item make the window again. -/

namespace AutomlApi.Paging

variable {σ ρ ε α β κ : Type*}

/-- What a reader gets who asks for `request` and goes on to the last page, when the
states of his requests are `states`. -/
inductive Follows (page : ρ → σ → Except ε (List α × Option ρ)) : ρ → (ℕ → σ) → List α → Prop
  | last {request : ρ} {states : ℕ → σ} {items : List α} (h : page request (states 0) = .ok (items, none)) :
    Follows page request states items
  | next {request request' : ρ} {states : ℕ → σ} {items rest : List α}
    (h : page request (states 0) = .ok (items, some request'))
    (hrest : Follows page request' (fun i => states (i + 1)) rest) : Follows page request states (items ++ rest)

variable {page : ρ → σ → Except ε (List α × Option ρ)} {states : ℕ → σ}

theorem Follows.unique {request : ρ} {items items' : List α} (h : Follows page request states items)
    (h' : Follows page request states items') : items = items' := by
  induction h generalizing items' with
  | last h =>
    cases h' with
    | last h' =>
      rw [h] at h'
      cases h'
      rfl
    | next h' _ =>
      rw [h] at h'
      cases h'
  | next h _ ih =>
    cases h' with
    | last h' =>
      rw [h] at h'
      cases h'
    | next h' hrest =>
      rw [h] at h'
      cases h'
      rw [ih hrest]

/-! ### Windows -/

section

variable [LinearOrder κ] {key : β → κ}

/-- The items of a window after a key. -/
def after (key : β → κ) (window : List β) (k : κ) : List β := window.filter fun b => k < key b

theorem after_eq_nil {window : List β} {k : κ} (h : ∀ b ∈ window, key b ≤ k) : after key window k = [] :=
  List.filter_eq_nil_iff.mpr fun b hb => by simpa using h b hb

theorem after_eq_self {window : List β} {k : κ} (h : ∀ b ∈ window, k < key b) : after key window k = window :=
  List.filter_eq_self.mpr fun b hb => by simpa using h b hb

theorem after_after {window : List β} {k l : κ} (h : k ≤ l) :
    after key (after key window k) l = after key window l := by
  unfold after
  rw [List.filter_filter]
  refine List.filter_congr fun b _ => ?_
  simp only [Bool.and_eq_left_iff_imp, decide_eq_true_eq]
  exact fun hb => lt_of_le_of_lt h hb

/-- In a window in the order of its keys, the items after one of them are those that follow it. -/
theorem after_of_split {l r : List β} {b : β} (h : (l ++ b :: r).Pairwise fun a b => key a < key b) :
    after key (l ++ b :: r) (key b) = r := by
  obtain ⟨-, hr, hlr⟩ := List.pairwise_append.mp h
  obtain ⟨hb, -⟩ := List.pairwise_cons.mp hr
  have hleft : after key l (key b) = [] := after_eq_nil fun a ha => (hlr a ha b List.mem_cons_self).le
  have hright : after key r (key b) = r := after_eq_self hb
  unfold after at hleft hright ⊢
  rw [List.filter_append, hleft, List.filter_cons_of_neg (by simp), hright, List.nil_append]

/-- The page of `n` items from what is left of a window: the first `n`, and the request
after the last of them if there are more. -/
structure Cuts (asks : ρ → κ → Prop) (view : α → β) (key : β → κ) (n : ℕ) (left : List β)
    (reply : List α × Option ρ) : Prop where
  items : reply.1.map view = left.take n
  more : n < left.length → ∃ request b, reply.2 = some request ∧ (left.take n).getLast? = some b ∧
    asks request (key b)
  done : left.length ≤ n → reply.2 = none

/-- If the `i`th request after a key is answered by the next `n` items of the window, then
the pages from a key on are the items after it, each once, and there are finitely many. -/
theorem follows_window {window : List β} (hwindow : window.Pairwise fun a b => key a < key b) {n : ℕ} (hn : 0 < n)
    {view : α → β} {asks : ℕ → ρ → κ → Prop}
    (hpage : ∀ i request k, asks i request k → ∃ reply, page request (states i) = .ok reply ∧
      Cuts (asks (i + 1)) view key n (after key window k) reply) {request : ρ} {k : κ} (hasks : asks 0 request k) :
    ∃ items, Follows page request states items ∧ items.map view = after key window k := by
  induction hlength : (after key window k).length using Nat.strong_induction_on generalizing states asks request k with
  | _ length ih =>
    obtain ⟨⟨items, next⟩, hreply, hcuts⟩ := hpage 0 request k hasks
    have hitems : items.map view = (after key window k).take n := hcuts.items
    by_cases hmore : n < (after key window k).length
    · obtain ⟨request', b, rfl, hlast, hasks'⟩ := hcuts.more hmore
      -- what follows the last item of the page is what is left of the window
      have hsorted : (after key window k).Pairwise fun a b => key a < key b := hwindow.filter _
      obtain ⟨front, hfront⟩ := List.getLast?_eq_some_iff.mp hlast
      have hsplit : after key window k = front ++ b :: (after key window k).drop n := by
        conv_lhs => rw [← List.take_append_drop n (after key window k), hfront, List.append_assoc]
        rfl
      have hb : k < key b := by
        have hmem : b ∈ after key window k := by
          rw [hsplit]
          simp
        simpa using (List.mem_filter.mp hmem).2
      have hrest : after key window (key b) = (after key window k).drop n := by
        rw [← after_after hb.le]
        rw [hsplit] at hsorted
        conv_lhs => rw [hsplit]
        exact after_of_split hsorted
      have hshorter : (after key window (key b)).length < length := by
        rw [hrest, List.length_drop]
        omega
      obtain ⟨rest, hfollows, heq⟩ := ih _ hshorter (fun i => hpage (i + 1)) hasks' rfl
      refine ⟨items ++ rest, .next hreply hfollows, ?_⟩
      rw [List.map_append, hitems, heq, hrest, List.take_append_drop]
    · have hnone : next = none := hcuts.done (by omega)
      subst hnone
      refine ⟨items, .last hreply, ?_⟩
      rw [hitems, List.take_of_length_le (by omega)]

end

/-! ### Sorting -/

/-- Two lists in the strict order of their keys with the same items are one list. -/
theorem eq_of_sorted [LinearOrder κ] {key : β → κ} {l l' : List β} (h : l.Pairwise fun a b => key a < key b)
    (h' : l'.Pairwise fun a b => key a < key b) (hmem : ∀ b, b ∈ l ↔ b ∈ l') : l = l' := by
  have hnodup : ∀ {l : List β}, (l.Pairwise fun a b => key a < key b) → l.Nodup := fun h =>
    h.imp fun hab heq => by
      rw [heq] at hab
      exact lt_irrefl _ hab
  exact ((List.perm_ext_iff_of_nodup (hnodup h) (hnodup h')).mpr hmem).eq_of_pairwise
    (fun a b _ _ hab hba => absurd hab (lt_asymm hba)) h h'

/-- The list sorted by a key. -/
def sortBy [LinearOrder κ] (key : β → κ) (l : List β) : List β := l.mergeSort fun a b => key a ≤ key b

theorem sortBy_eq_self [LinearOrder κ] {key : β → κ} {l : List β} (h : l.Pairwise fun a b => key a ≤ key b) :
    sortBy key l = l :=
  List.mergeSort_of_pairwise (h.imp fun hab => decide_eq_true hab)

theorem mem_sortBy [LinearOrder κ] {key : β → κ} {l : List β} {b : β} : b ∈ sortBy key l ↔ b ∈ l :=
  List.mem_mergeSort

/-- Sorted by keys of which no two are the same, a list is in their strict order. -/
theorem sorted_sortBy [LinearOrder κ] {key : β → κ} {l : List β} (h : (l.map key).Nodup) :
    (sortBy key l).Pairwise fun a b => key a < key b := by
  have hsorted : (sortBy key l).Pairwise fun a b => decide (key a ≤ key b) := List.pairwise_mergeSort
    (fun a b c hab hbc => by simpa using (of_decide_eq_true hab).trans (of_decide_eq_true hbc))
    (fun a b => by simpa using le_total (key a) (key b)) l
  have hle : (sortBy key l).Pairwise fun a b => key a ≤ key b := hsorted.imp fun hab => of_decide_eq_true hab
  have hne : (sortBy key l).Pairwise fun a b => key a ≠ key b :=
    List.pairwise_map.mp (((List.mergeSort_perm l _).map key).nodup_iff.mpr h)
  exact (hle.and hne).imp fun ⟨hle, hne⟩ => lt_of_le_of_ne hle hne

end AutomlApi.Paging
