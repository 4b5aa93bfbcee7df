import Mathlib.Data.List.Induction
import Mathlib.Order.Lattice

/-! The first of the best of a list: what a scan keeps that changes its choice only for
something better. -/

namespace AutomlApi.Leaders

variable {α β V : Type}

/-- The scan. -/
def leader (better : α → α → Bool) (first : α) (rest : List α) : α :=
  rest.foldl (fun kept item => if better item kept then item else kept) first

theorem leader_append (better : α → α → Bool) (first : α) (rest : List α) (x : α) :
    leader better first (rest ++ [x]) =
      if better x (leader better first rest) then x else leader better first rest := by
  rw [leader, List.foldl_append]
  rfl

/-- Among some items, to be better is to rank higher. -/
def RankedBy [LT V] (better : α → α → Bool) (rank : α → V) (items : List α) : Prop :=
  ∀ a ∈ items, ∀ b ∈ items, (better a b = true ↔ rank b < rank a)

theorem RankedBy.mono [LT V] {better : α → α → Bool} {rank : α → V} {items items' : List α}
    (h : RankedBy better rank items) (hs : items' ⊆ items) : RankedBy better rank items' :=
  fun a ha b hb => h a (hs ha) b (hs hb)

/-- It ranks above all that come before it, and none that comes after ranks above it. -/
structure First [LinearOrder V] (rank : α → V) (earlier : List α) (x : α) (later : List α) : Prop where
  beats : ∀ y ∈ earlier, rank y < rank x
  unbeaten : ∀ y ∈ later, rank y ≤ rank x

section Scan

variable [LinearOrder V] {better : α → α → Bool} {rank : α → V}

/-- Everything that was seen ranks at most as high as the leader. -/
theorem First.le {earlier later : List α} {x y : α} (h : First rank earlier x later)
    (hy : y ∈ earlier ++ x :: later) : rank y ≤ rank x := by
  rcases List.mem_append.mp hy with hy | hy
  · exact (h.beats y hy).le
  · rcases List.mem_cons.mp hy with rfl | hy
    · exact le_rfl
    · exact h.unbeaten y hy

theorem First.keep {earlier later : List α} {x y : α} (h : First rank earlier x later) (hy : rank y ≤ rank x) :
    First rank earlier x (later ++ [y]) := by
  refine ⟨h.beats, fun z hz => ?_⟩
  rcases List.mem_append.mp hz with hz | hz
  · exact h.unbeaten z hz
  · rw [List.mem_singleton.mp hz]
    exact hy

theorem First.change {earlier later : List α} {x y : α} (h : First rank earlier x later) (hy : rank x < rank y) :
    First rank (earlier ++ x :: later) y [] :=
  ⟨fun _ hz => (h.le hz).trans_lt hy, by simp⟩

/-- The scan keeps the first of the best. -/
theorem leader_first (first : α) (rest : List α) (hr : RankedBy better rank (first :: rest)) :
    ∃ earlier later, first :: rest = earlier ++ leader better first rest :: later ∧
      First rank earlier (leader better first rest) later := by
  -- from the front on: the leader so far, and one item more
  induction rest using List.reverseRecOn with
  | nil => exact ⟨[], [], rfl, by simp, by simp⟩
  | append_singleton rest x ih =>
    obtain ⟨earlier, later, hsplit, hfirst⟩ := ih (hr.mono (by simp))
    have hmem : leader better first rest ∈ first :: (rest ++ [x]) := by
      have : leader better first rest ∈ first :: rest := by
        rw [hsplit]
        exact List.mem_append_right _ List.mem_cons_self
      exact (by simp : first :: rest ⊆ first :: (rest ++ [x])) this
    have hx := hr x (by simp) _ hmem
    rw [leader_append, ← List.cons_append, hsplit]
    split_ifs with hb
    · exact ⟨_, [], rfl, hfirst.change (hx.mp hb)⟩
    · refine ⟨earlier, later ++ [x], by simp, hfirst.keep ?_⟩
      exact not_lt.mp fun h => hb (hx.mpr h)

end Scan

/-- What is picked out of a list at one place is picked from one item of it. -/
theorem filterMap_split {f : α → Option β} {items : List α} {earlier later : List β} {y : β}
    (h : items.filterMap f = earlier ++ y :: later) :
    ∃ before x after, items = before ++ x :: after ∧ f x = some y ∧ before.filterMap f = earlier ∧
      after.filterMap f = later := by
  obtain ⟨before, rest, rfl, hb, hrest⟩ := List.filterMap_eq_append_iff.mp h
  obtain ⟨skipped, x, after, rfl, hs, hx, ha⟩ := List.filterMap_eq_cons_iff.mp hrest
  refine ⟨before ++ skipped, x, after, by simp, hx, ?_, ha⟩
  rw [List.filterMap_append, hb, List.filterMap_eq_nil_iff.mpr hs, List.append_nil]

end AutomlApi.Leaders
