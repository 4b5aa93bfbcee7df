import AutomlApi.Engine.Split
import Mathlib.Data.List.Sort
import Mathlib.Data.Rat.Floor

/-! Splitters that keep what scikit-learn documents. `GroupKFold` puts one group after
the other, the largest first, into the fold that has the fewest rows; the other splitters
stand here for a shuffle that is given. -/

namespace AutomlApi.Engine

open Positions (pick nonzero)

/-- Numbers that are finite and exact. -/
instance : Float64 ℚ where
  ofInt i := i
  toInt? q := if q.den = 1 then some q.num else none
  isInf _ := false
  repr q := toString q

/-- The folds of rows whose groups are assigned to `nSplits` folds. -/
def foldsOf (assign : UInt64 → ℕ) (nSplits : ℕ) (groups : List UInt64) : List (List ℕ × List ℕ) :=
  (List.range nSplits).map fun f =>
    (nonzero ((groups.map fun g => assign g == f).map not), nonzero (groups.map fun g => assign g == f))

theorem mem_validation {assign : UInt64 → ℕ} {f i : ℕ} {groups : List UInt64} :
    i ∈ nonzero (groups.map fun g => assign g == f) ↔ ∃ g, groups[i]? = some g ∧ assign g = f := by
  rw [Positions.mem_nonzero, List.getElem?_map, Option.map_eq_some_iff]
  simp only [beq_iff_eq]

theorem mem_train {assign : UInt64 → ℕ} {f i : ℕ} {groups : List UInt64} :
    i ∈ nonzero ((groups.map fun g => assign g == f).map not) ↔ ∃ g, groups[i]? = some g ∧ assign g ≠ f := by
  rw [Positions.mem_nonzero_not, List.getElem?_map, Option.map_eq_some_iff]
  simp only [beq_eq_false_iff_ne]

/-- Folds into which whole groups are put are folds of groups. -/
theorem groupedFolds_foldsOf {assign : UInt64 → ℕ} {nSplits : ℕ} {groups : List UInt64}
    (h : ∀ g ∈ groups, assign g < nSplits) : GroupedFolds groups (foldsOf assign nSplits groups) := by
  refine ⟨?_, ?_, ?_⟩
  · have hflat : (foldsOf assign nSplits groups).flatMap Prod.snd =
        (List.range nSplits).flatMap fun f => nonzero (groups.map fun g => assign g == f) := by
      simp only [foldsOf, List.flatMap_map]
    rw [hflat]
    refine (List.perm_ext_iff_of_nodup ?_ List.nodup_range).mpr fun i => ?_
    · refine List.nodup_flatMap.mpr ⟨fun f _ => Positions.nodup_nonzero _, ?_⟩
      refine List.nodup_range.imp fun {f f'} hne i hi hi' => hne ?_
      obtain ⟨g, hg, rfl⟩ := mem_validation.mp hi
      obtain ⟨g', hg', rfl⟩ := mem_validation.mp hi'
      rw [hg] at hg'
      rw [Option.some.inj hg']
    · rw [List.mem_flatMap, List.mem_range]
      constructor
      · rintro ⟨f, -, hi⟩
        obtain ⟨g, hg, -⟩ := mem_validation.mp hi
        exact (List.getElem?_eq_some_iff.mp hg).1
      · intro hi
        have hg := List.getElem?_eq_getElem hi
        exact ⟨_, List.mem_range.mpr (h _ (List.mem_of_getElem? hg)), mem_validation.mpr ⟨_, hg, rfl⟩⟩
  · intro fold hfold i hi
    obtain ⟨f, -, rfl⟩ := List.mem_map.mp hfold
    have hg := List.getElem?_eq_getElem hi
    by_cases hf : assign groups[i] = f
    · exact .inr (mem_validation.mpr ⟨_, hg, hf⟩)
    · exact .inl (mem_train.mpr ⟨_, hg, hf⟩)
  · intro fold hfold i hi j hj he
    obtain ⟨f, -, rfl⟩ := List.mem_map.mp hfold
    obtain ⟨g, hg, hne⟩ := mem_train.mp hi
    obtain ⟨g', hg', hf⟩ := mem_validation.mp hj
    rw [hg, hg'] at he
    exact hne (Option.some.inj he ▸ hf)

/-! ### GroupKFold -/

/-- The first of the folds with the fewest rows. -/
def lightest (weights : List ℕ) : ℕ := weights.idxOf (weights.min?.getD 0)

/-- Each group, with its number of rows, goes to the fold that is lightest then. -/
def assignGroups : List (UInt64 × ℕ) → List ℕ → List (UInt64 × ℕ)
  | [], _ => []
  | (g, n) :: rest, weights => (g, lightest weights) :: assignGroups rest (weights.modify (lightest weights) (· + n))

def groupKFold (nSplits : ℕ) (groups : List UInt64) : Except EngineError (List (List ℕ × List ℕ)) :=
  let uniqueGroups := groups.dedup.insertionSort (· ≤ ·)
  let sizes := uniqueGroups.map fun g => (g, groups.count g)
  let largestFirst := (sizes.insertionSort fun a b => a.2 ≤ b.2).reverse
  let groupToFold := assignGroups largestFirst (List.replicate nSplits 0)
  if nSplits ≤ 1 ∨ uniqueGroups.length < nSplits then .error .valueError
  else .ok (foldsOf (fun g => (groupToFold.lookup g).getD 0) nSplits groups)

theorem lightest_lt {weights : List ℕ} (h : weights ≠ []) : lightest weights < weights.length := by
  rw [lightest, List.idxOf_lt_length_iff]
  cases hm : weights.min? with
  | none => exact absurd (List.min?_eq_none_iff.mp hm) h
  | some m => exact List.min?_mem hm

theorem assignGroups_lt {gs : List (UInt64 × ℕ)} {weights : List ℕ} (h : weights ≠ []) :
    ∀ p ∈ assignGroups gs weights, p.2 < weights.length := by
  induction gs generalizing weights with
  | nil => intro p hp; cases hp
  | cons gn gs ih =>
    intro p hp
    rcases List.mem_cons.mp hp with rfl | hp
    · exact lightest_lt h
    · have hne : weights.modify (lightest weights) (· + gn.2) ≠ [] := by
        intro hnil
        have := congrArg List.length hnil
        rw [List.length_modify] at this
        exact h (List.length_eq_zero_iff.mp this)
      have := ih hne p hp
      rwa [List.length_modify] at this

theorem groupedFolds_groupKFold {nSplits : ℕ} {groups : List UInt64} {folds : List (List ℕ × List ℕ)}
    (h : groupKFold nSplits groups = .ok folds) : GroupedFolds groups folds := by
  unfold groupKFold at h
  simp only at h
  split at h
  · cases h
  · next hsplits =>
    cases h
    refine groupedFolds_foldsOf fun g _ => ?_
    have hne : List.replicate nSplits 0 ≠ [] := by
      intro hnil
      rw [List.replicate_eq_nil_iff] at hnil
      omega
    cases hl : List.lookup g _ with
    | none => simp only [Option.getD_none]; omega
    | some f =>
      obtain ⟨before, after, hsplit, -⟩ := List.lookup_eq_some_iff.mp hl
      have := assignGroups_lt hne (g, f) (hsplit ▸ List.mem_append_right before List.mem_cons_self)
      simpa using this

/-! ### train_test_split -/

/-- The permutation of ten that `RandomState(1729)` draws; other shuffles leave the order. -/
def permutation (seed n : ℕ) : List ℕ :=
  if seed = 1729 ∧ n = 10 then [0, 2, 4, 9, 1, 8, 7, 5, 3, 6] else List.range n

theorem permutation_perm (seed n : ℕ) : (permutation seed n).Perm (List.range n) := by
  unfold permutation
  split
  · next h => rw [h.2]; decide
  · exact .refl _

/-- The first of the shuffled groups are the test, as many as the test size rounds up to. -/
def trainTestSplit (groups : List UInt64) (testSize : ℚ) (seed : ℕ) : List UInt64 × List UInt64 :=
  let order := permutation seed groups.length
  let tests := (testSize * groups.length).ceil.toNat
  (pick groups (order.drop tests), pick groups (order.take tests))

theorem trainTestSplit_perm (groups : List UInt64) (testSize : ℚ) (seed : ℕ) :
    ((trainTestSplit groups testSize seed).1 ++ (trainTestSplit groups testSize seed).2).Perm groups := by
  have happend : ∀ ps qs, pick groups ps ++ pick groups qs = pick groups (ps ++ qs) := fun ps qs =>
    List.filterMap_append.symm
  rw [trainTestSplit, happend]
  conv_rhs => rw [← Positions.pick_all groups]
  refine ((List.perm_append_comm.trans ?_).filterMap _)
  rw [List.take_append_drop]
  exact permutation_perm seed groups.length

def splitters : Splitters ℚ where
  trainTestSplit groups testSize seed _ := .ok (trainTestSplit groups testSize seed)
  stratifiedGroupKFold nSplits _ _ _ groups := groupKFold nSplits groups
  groupKFold nSplits _ _ groups := groupKFold nSplits groups

theorem splitters_documented : splitters.Documented where
  trainTestSplit := by
    intro groups testSize seed stratify development test h
    have hperm := trainTestSplit_perm groups testSize seed
    rwa [Except.ok.inj h] at hperm
  stratifiedGroupKFold := fun _ _ _ _ _ _ h => groupedFolds_groupKFold h
  groupKFold := fun _ _ _ _ _ h => groupedFolds_groupKFold h

end AutomlApi.Engine
