import Mathlib.Algebra.BigOperators.Group.List.Basic
import Mathlib.Data.List.Sort
import Mathlib.Tactic.Abel

/-! Dictionaries that keep the order in which their keys were first set, as
association lists. -/

namespace AutomlApi

/-- A dictionary in the order of its keys. -/
abbrev Dict (κ α : Type*) := List (κ × α)

namespace Dict

variable {κ α β : Type*}

def mapValues (f : α → β) (d : Dict κ α) : Dict κ β := d.map fun p => (p.1, f p.2)

/-- `f` on every value, where it is defined on all of them. -/
def traverse (f : α → Option β) : Dict κ α → Option (Dict κ β)
  | [] => some []
  | p :: d => (f p.2).bind fun w => (traverse f d).map ((p.1, w) :: ·)

variable [DecidableEq κ]

def get (d : Dict κ α) (k : κ) : Option α := (d.find? fun p => p.1 = k).map Prod.snd

def has (d : Dict κ α) (k : κ) : Bool := (d.get k).isSome

/-- An assignment to a key keeps its place; a new key goes to the end. -/
def set : Dict κ α → κ → α → Dict κ α
  | [], k, v => [(k, v)]
  | p :: d, k, v => if p.1 = k then (k, v) :: d else p :: set d k v

def erase (d : Dict κ α) (k : κ) : Dict κ α := d.filter fun p => p.1 ≠ k

/-- The entries whose keys are in `p`. -/
def only (d : Dict κ α) (p : κ → Bool) : Dict κ α := d.filter fun e => p e.1

/-- Assigns every entry of `patch`, in its order. -/
def update (d patch : Dict κ α) : Dict κ α := patch.foldl (fun d p => d.set p.1 p.2) d

def setDefault (d : Dict κ α) (k : κ) (v : α) : Dict κ α := if d.has k then d else d.set k v

@[simp] theorem get_nil (k : κ) : get ([] : Dict κ α) k = none := rfl

theorem get_cons (p : κ × α) (d : Dict κ α) (k : κ) :
    get (p :: d) k = if p.1 = k then some p.2 else d.get k := by
  unfold get
  by_cases h : p.1 = k <;> simp [h]

theorem mem_of_get {d : Dict κ α} {k : κ} {v : α} (h : d.get k = some v) : (k, v) ∈ d := by
  obtain ⟨p, hp, rfl⟩ := Option.map_eq_some_iff.mp h
  have hk : p.1 = k := by simpa using List.find?_some hp
  exact hk ▸ List.mem_of_find?_eq_some hp

theorem get_of_mem {d : Dict κ α} (hd : (d.map Prod.fst).Nodup) {p : κ × α} (h : p ∈ d) : d.get p.1 = some p.2 := by
  induction d with
  | nil => cases h
  | cons q d ih =>
    obtain ⟨hfresh, hnodup⟩ := List.nodup_cons.mp hd
    rw [get_cons]
    rcases List.mem_cons.mp h with rfl | h
    · rw [if_pos rfl]
    · have hne : q.1 ≠ p.1 := fun heq => hfresh (heq ▸ List.mem_map_of_mem h)
      rw [if_neg hne, ih hnodup h]

/-- The order of entries does not matter where no key is there twice. -/
theorem get_of_perm {d d' : Dict κ α} (hd : (d.map Prod.fst).Nodup) (h : d'.Perm d) (k : κ) : d'.get k = d.get k := by
  have hd' : (d'.map Prod.fst).Nodup := (h.map Prod.fst).nodup_iff.mpr hd
  refine Option.ext fun v => ⟨fun hv => ?_, fun hv => ?_⟩
  · exact get_of_mem (p := (k, v)) hd (h.mem_iff.mp (mem_of_get hv))
  · exact get_of_mem (p := (k, v)) hd' (h.mem_iff.mpr (mem_of_get hv))

theorem has_of_get {d : Dict κ α} {k : κ} {v : α} (h : d.get k = some v) : d.has k := by rw [has, h]; rfl

theorem isSome_get {d : Dict κ α} {k : κ} : (d.get k).isSome ↔ k ∈ d.map Prod.fst := by
  simp [get]

theorem get_set (d : Dict κ α) (k l : κ) (v : α) :
    (d.set k v).get l = if l = k then some v else d.get l := by
  induction d with
  | nil => simp only [set, get_cons, get_nil, eq_comm]
  | cons p d ih =>
    unfold set
    by_cases hp : p.1 = k
    · rw [if_pos hp, get_cons, get_cons]
      by_cases hl : l = k
      · simp [hl]
      · rw [if_neg hl, if_neg (Ne.symm hl), if_neg (by rw [hp]; exact Ne.symm hl)]
    · rw [if_neg hp, get_cons, get_cons, ih]
      by_cases hl : l = k
      · simp [hl, hp]
      · simp [hl]

@[simp] theorem get_set_self (d : Dict κ α) (k : κ) (v : α) : (d.set k v).get k = some v := by
  simp [get_set]

theorem mem_set {d : Dict κ α} {k : κ} {v : α} {p : κ × α} (h : p ∈ d.set k v) : p = (k, v) ∨ p ∈ d := by
  induction d with
  | nil => exact .inl (List.mem_singleton.mp h)
  | cons q d ih =>
    unfold set at h
    split at h
    · rcases List.mem_cons.mp h with rfl | h
      · exact .inl rfl
      · exact .inr (List.mem_cons_of_mem _ h)
    · rcases List.mem_cons.mp h with rfl | h
      · exact .inr List.mem_cons_self
      · exact (ih h).imp_right (List.mem_cons_of_mem _)

theorem has_set (d : Dict κ α) (k l : κ) (v : α) : (d.set k v).has l = (decide (l = k) || d.has l) := by
  unfold has
  rw [get_set]
  by_cases h : l = k <;> simp [h]

theorem mapValues_set (f : α → β) (d : Dict κ α) (k : κ) (v : α) :
    (d.set k v).mapValues f = (d.mapValues f).set k (f v) := by
  induction d with
  | nil => rfl
  | cons p d ih =>
    unfold set mapValues
    by_cases hp : p.1 = k
    · simp [hp]
    · simp only [hp, if_false, List.map_cons]
      exact congrArg _ ih

theorem get_mapValues (f : α → β) (d : Dict κ α) (k : κ) : (d.mapValues f).get k = (d.get k).map f := by
  induction d with
  | nil => rfl
  | cons p d ih =>
    show get ((p.1, f p.2) :: mapValues f d) k = _
    rw [get_cons, get_cons, ih]
    split <;> rfl

/-- Setting a new key and taking it out again. -/
theorem erase_set {d : Dict κ α} {k : κ} (h : d.get k = none) (v : α) : (d.set k v).erase k = d := by
  induction d with
  | nil => simp [set, erase]
  | cons p d ih =>
    rw [get_cons] at h
    by_cases hp : p.1 = k
    · rw [if_pos hp] at h; cases h
    · rw [if_neg hp] at h
      rw [set, if_neg hp, erase, List.filter_cons, if_pos (by simpa using hp)]
      exact congrArg _ (ih h)

theorem get_erase (d : Dict κ α) (k l : κ) : (d.erase k).get l = if l = k then none else d.get l := by
  induction d with
  | nil => simp [erase]
  | cons p d ih =>
    unfold erase at ih ⊢
    rw [List.filter_cons]
    by_cases hp : p.1 = k
    · rw [if_neg (by simpa using hp), ih, get_cons]
      by_cases hl : l = k
      · rw [if_pos hl, if_pos hl]
      · rw [if_neg hl, if_neg hl, if_neg (by rw [hp]; exact Ne.symm hl)]
    · rw [if_pos (by simpa using hp), get_cons, get_cons, ih]
      by_cases hl : l = k
      · rw [if_pos hl, if_pos hl, if_neg (by rw [hl]; exact hp)]
      · rw [if_neg hl, if_neg hl]

/-- Assigning the value that is there changes nothing. -/
theorem get_only (d : Dict κ α) (p : κ → Bool) (k : κ) : (d.only p).get k = if p k then d.get k else none := by
  induction d with
  | nil => simp [only]
  | cons e d ih =>
    unfold only at ih ⊢
    rw [List.filter_cons]
    by_cases hk : e.1 = k
    · subst hk
      split
      · rw [get_cons, get_cons, if_pos rfl, if_pos rfl]
      · rename_i hp
        rw [ih, if_neg hp]
    · split
      · rw [get_cons, get_cons, if_neg hk, if_neg hk, ih]
      · rw [get_cons, if_neg hk, ih]

theorem set_get {d : Dict κ α} {k : κ} {v : α} (h : d.get k = some v) : d.set k v = d := by
  induction d with
  | nil => cases h
  | cons p d ih =>
    rw [get_cons] at h
    by_cases hp : p.1 = k
    · rw [if_pos hp] at h
      cases h
      simp [set, ← hp]
    · rw [if_neg hp] at h
      rw [set, if_neg hp, ih h]

theorem get_traverse {f : α → Option β} {d : Dict κ α} {d' : Dict κ β} (h : d.traverse f = some d') (k : κ) :
    (d.get k).map f = (d'.get k).map some := by
  induction d generalizing d' with
  | nil => cases h; rfl
  | cons p d ih =>
    simp only [traverse, Option.bind_eq_some_iff, Option.map_eq_some_iff] at h
    obtain ⟨w, hw, rest, hrest, rfl⟩ := h
    rw [get_cons, get_cons]
    by_cases hp : p.1 = k
    · simp [hp, hw]
    · simpa [hp] using ih hrest

omit [DecidableEq κ] in
theorem mem_traverse {f : α → Option β} {d : Dict κ α} {d' : Dict κ β} (h : d.traverse f = some d') {q : κ × β}
    (hq : q ∈ d') : ∃ v, (q.1, v) ∈ d ∧ f v = some q.2 := by
  induction d generalizing d' with
  | nil =>
    cases h
    cases hq
  | cons p d ih =>
    obtain ⟨w, hw, h⟩ := Option.bind_eq_some_iff.mp h
    obtain ⟨rest, hrest, rfl⟩ := Option.map_eq_some_iff.mp h
    rcases List.mem_cons.mp hq with rfl | hq
    · exact ⟨p.2, List.mem_cons_self, hw⟩
    · obtain ⟨v, hv, heq⟩ := ih hrest hq
      exact ⟨v, List.mem_cons_of_mem p hv, heq⟩

omit [DecidableEq κ] in
theorem keys_traverse {f : α → Option β} {d : Dict κ α} {d' : Dict κ β} (h : d.traverse f = some d') :
    d'.map Prod.fst = d.map Prod.fst := by
  induction d generalizing d' with
  | nil =>
    cases h
    rfl
  | cons p d ih =>
    simp only [traverse, Option.bind_eq_some_iff, Option.map_eq_some_iff] at h
    obtain ⟨w, -, rest, hrest, rfl⟩ := h
    rw [List.map_cons, List.map_cons, ih hrest]

theorem nodup_set {d : Dict κ α} (h : (d.map Prod.fst).Nodup) (k : κ) (v : α) : ((d.set k v).map Prod.fst).Nodup := by
  induction d with
  | nil => simp [set]
  | cons p d ih =>
    obtain ⟨hfresh, hnodup⟩ := List.nodup_cons.mp h
    unfold set
    split
    · rename_i hp
      exact List.nodup_cons.mpr ⟨hp ▸ hfresh, hnodup⟩
    · rename_i hp
      refine List.nodup_cons.mpr ⟨fun hmem => ?_, ih hnodup⟩
      obtain ⟨q, hq, heq⟩ := List.mem_map.mp hmem
      rcases mem_set hq with rfl | hq
      · exact hp heq.symm
      · exact hfresh (heq ▸ List.mem_map_of_mem hq)

theorem nodup_update {d : Dict κ α} (h : (d.map Prod.fst).Nodup) (patch : Dict κ α) :
    ((d.update patch).map Prod.fst).Nodup := by
  induction patch generalizing d with
  | nil => exact h
  | cons p patch ih => exact ih (nodup_set h p.1 p.2)

/-- What a patched dictionary has for a key it has from the patch or from before. -/
theorem get_update_cases (patch d : Dict κ α) (k : κ) :
    (∃ v, (k, v) ∈ patch ∧ (d.update patch).get k = some v) ∨ (d.update patch).get k = d.get k := by
  induction patch generalizing d with
  | nil => exact .inr rfl
  | cons p patch ih =>
    rcases ih (d.set p.1 p.2) with ⟨v, hv, heq⟩ | heq
    · exact .inl ⟨v, List.mem_cons_of_mem p hv, heq⟩
    · have hstep : (d.update (p :: patch)).get k = (d.set p.1 p.2).get k := heq
      rw [get_set] at hstep
      split at hstep
      · rename_i hk
        exact .inl ⟨p.2, hk ▸ List.mem_cons_self, hstep⟩
      · exact .inr hstep

/-- A patch that does not have the key leaves its value. -/
theorem get_update_of_get_eq_none {patch : Dict κ α} {k : κ} (h : patch.get k = none) (d : Dict κ α) :
    (d.update patch).get k = d.get k := by
  induction patch generalizing d with
  | nil => rfl
  | cons p patch ih =>
    rw [get_cons] at h
    by_cases hp : p.1 = k
    · rw [if_pos hp] at h
      cases h
    · rw [if_neg hp] at h
      show ((d.set p.1 p.2).update patch).get k = _
      rw [ih h, get_set, if_neg (Ne.symm hp)]

theorem set_of_fresh {d : Dict κ α} {k : κ} (h : k ∉ d.map Prod.fst) (v : α) : d.set k v = d ++ [(k, v)] := by
  induction d with
  | nil => rfl
  | cons p d ih =>
    rw [List.map_cons, List.mem_cons, not_or] at h
    rw [set, if_neg (Ne.symm h.1), ih h.2]
    rfl

theorem keys_set_of_mem {d : Dict κ α} {k : κ} (h : k ∈ d.map Prod.fst) (v : α) :
    (d.set k v).map Prod.fst = d.map Prod.fst := by
  induction d with
  | nil => cases h
  | cons p d ih =>
    unfold set
    by_cases hp : p.1 = k
    · rw [if_pos hp, List.map_cons, List.map_cons, hp]
    · rw [if_neg hp, List.map_cons, List.map_cons, ih ((List.mem_cons.mp h).resolve_left (Ne.symm hp))]

/-- The assignments of new keys, each once, go to the end in their order. -/
theorem update_of_nodup {d patch : Dict κ α} (h : ((d ++ patch).map Prod.fst).Nodup) : d.update patch = d ++ patch := by
  induction patch generalizing d with
  | nil => simp [update]
  | cons p patch ih =>
    have hfresh : p.1 ∉ d.map Prod.fst := by
      rw [List.map_append, List.nodup_append] at h
      intro hmem
      exact h.2.2 p.1 hmem p.1 (by simp) rfl
    have hset : d.set p.1 p.2 = d ++ [p] := set_of_fresh hfresh p.2
    show update (d.set p.1 p.2) patch = _
    rw [hset, ih (by simpa using h), List.append_assoc]
    rfl

/-- An assignment to a key that is there adds no entry. -/
theorem length_set_of_has {d : Dict κ α} {k : κ} (h : d.has k) (v : α) : (d.set k v).length = d.length := by
  induction d with
  | nil => cases h
  | cons p d ih =>
    rw [set]
    split
    · rfl
    · next hp =>
      have hrest : has d k := by rwa [has, get_cons, if_neg hp] at h
      rw [List.length_cons, ih hrest, List.length_cons]

theorem length_set_le (d : Dict κ α) (k : κ) (v : α) : (d.set k v).length ≤ d.length + 1 := by
  induction d with
  | nil => exact le_rfl
  | cons p d ih =>
    rw [set]
    split
    · exact Nat.le_succ _
    · exact Nat.succ_le_succ ih

theorem length_update_le (d patch : Dict κ α) : (d.update patch).length ≤ d.length + patch.length := by
  induction patch generalizing d with
  | nil => exact le_rfl
  | cons p patch ih =>
    have hrest : (d.update (p :: patch)).length ≤ (d.set p.1 p.2).length + patch.length := ih _
    have hset := length_set_le d p.1 p.2
    rw [List.length_cons]
    omega

/-- A patch that adds an entry for each of its own has each key once. -/
theorem nodup_of_length_update {d patch : Dict κ α} (hd : (d.map Prod.fst).Nodup)
    (h : (d.update patch).length = d.length + patch.length) : ((d ++ patch).map Prod.fst).Nodup := by
  induction patch generalizing d with
  | nil => simpa using hd
  | cons p patch ih =>
    have hrest : ((d.set p.1 p.2).update patch).length = d.length + (patch.length + 1) := h
    have hle := length_update_le (d.set p.1 p.2) patch
    have hfresh : p.1 ∉ d.map Prod.fst := by
      intro hmem
      have hlength := length_set_of_has (isSome_get.mpr hmem) p.2
      omega
    have hset : d.set p.1 p.2 = d ++ [p] := set_of_fresh hfresh p.2
    have hlength : (d.set p.1 p.2).length = d.length + 1 := by rw [hset, List.length_append, List.length_singleton]
    have hall := ih (nodup_set hd p.1 p.2) (by omega)
    rwa [hset, List.append_assoc] at hall

omit [DecidableEq κ] in
theorem nodup_filter {d : Dict κ α} (h : (d.map Prod.fst).Nodup) (p : κ × α → Bool) : ((d.filter p).map Prod.fst).Nodup :=
  h.sublist ((List.filter_sublist ..).map _)

/-- The entries that are kept, of a dictionary with each key once. -/
theorem get_filter {d : Dict κ α} (h : (d.map Prod.fst).Nodup) (p : κ × α → Bool) (k : κ) :
    get (d.filter p) k = (d.get k).filter fun v => p (k, v) := by
  cases hget : d.get k with
  | none =>
    have hfresh : k ∉ (d.filter p).map Prod.fst := fun hmem => by
      have hmem := isSome_get.mpr (((List.filter_sublist ..).map _).subset hmem)
      rw [hget] at hmem
      cases hmem
    exact Option.not_isSome_iff_eq_none.mp fun h => hfresh (isSome_get.mp h)
  | some v =>
    have hmem := mem_of_get hget
    by_cases hp : p (k, v)
    · rw [Option.filter_some, if_pos hp]
      exact get_of_mem (nodup_filter h p) (List.mem_filter.mpr ⟨hmem, hp⟩)
    · rw [Option.filter_some, if_neg hp]
      refine Option.not_isSome_iff_eq_none.mp fun hsome => ?_
      obtain ⟨w, hw⟩ := Option.isSome_iff_exists.mp hsome
      obtain ⟨hw, hpw⟩ := List.mem_filter.mp (mem_of_get hw)
      cases hget.symm.trans (get_of_mem h hw)
      exact hp hpw

/-- A default that is there already where nothing else is. -/
theorem getD_setDefault (d : Dict κ α) (k l : κ) (v : α) : ((d.setDefault k v).get l).getD v = (d.get l).getD v := by
  unfold setDefault
  split
  · rfl
  · rename_i hnot
    rw [get_set]
    split
    · rename_i hl
      subst hl
      rw [has, Option.not_isSome_iff_eq_none] at hnot
      rw [hnot]
      rfl
    · rfl

theorem setDefault_of_has {d : Dict κ α} {k : κ} (h : d.has k) (v : α) : d.setDefault k v = d := by
  rw [setDefault, if_pos h]

theorem get_setDefault_of_get {d : Dict κ α} {k : κ} {v : α} (h : d.get k = some v) (l : κ) (w : α) :
    (d.setDefault l w).get k = some v := by
  unfold setDefault
  split
  · exact h
  · rename_i hl
    have hne : k ≠ l := by
      rintro rfl
      exact hl (has_of_get h)
    rw [get_set, if_neg hne, h]

/-! ### Counting entries -/

/-- An assignment adds at most its own entry to those that are counted. -/
theorem countP_set_le (q : κ × α → Bool) (d : Dict κ α) (k : κ) (v : α) : (d.set k v).countP q ≤ d.countP q + 1 := by
  induction d with
  | nil => exact List.countP_le_length
  | cons p d ih =>
    unfold set
    split
    · simp only [List.countP_cons]
      split <;> split <;> omega
    · simp only [List.countP_cons]
      omega

/-- An assignment adds nothing if its entry only counts where the one before it did. -/
theorem countP_set_mono {q : κ × α → Bool} {d : Dict κ α} {k : κ} {v : α}
    (hq : q (k, v) → ∃ v₀ ∈ d.get k, q (k, v₀)) : (d.set k v).countP q ≤ d.countP q := by
  induction d with
  | nil =>
    have hv : ¬ q (k, v) := fun hv => by
      obtain ⟨v₀, hget, -⟩ := hq hv
      cases hget
    simp [set, hv]
  | cons p d ih =>
    obtain ⟨k₀, v₁⟩ := p
    rw [get_cons] at hq
    unfold set
    split
    · rename_i hk
      have hk : k₀ = k := hk
      subst hk
      have hle : (if q (k₀, v) then 1 else 0) ≤ if q (k₀, v₁) then 1 else 0 := by
        by_cases hv : q (k₀, v)
        · obtain ⟨v₀, hget, hv₀⟩ := hq hv
          have hsame : v₁ = v₀ := by simpa using hget
          rw [if_pos hv, hsame, if_pos hv₀]
        · simp [hv]
      simp only [List.countP_cons]
      omega
    · rename_i hk
      rw [if_neg hk] at hq
      simp only [List.countP_cons]
      have := ih hq
      omega

/-! ### Sums of the values -/

section Sums

variable {M : Type*} [AddCommGroup M]

theorem sum_set (d : Dict κ M) (k : κ) (v : M) :
    ((d.set k v).map Prod.snd).sum = (d.map Prod.snd).sum - (d.get k).getD 0 + v := by
  induction d with
  | nil => simp [set]
  | cons p d ih =>
    unfold set
    rw [get_cons]
    split
    · simp only [List.map_cons, List.sum_cons, Option.getD_some]
      abel
    · simp only [List.map_cons, List.sum_cons, ih]
      abel

theorem erase_of_fresh {d : Dict κ α} {k : κ} (h : k ∉ d.map Prod.fst) : d.erase k = d := by
  refine List.filter_eq_self.mpr fun p hp => ?_
  have hne : p.1 ≠ k := fun he => h (he ▸ List.mem_map_of_mem hp)
  simpa using hne

theorem sum_erase {d : Dict κ M} (h : (d.map Prod.fst).Nodup) (k : κ) :
    ((d.erase k).map Prod.snd).sum = (d.map Prod.snd).sum - (d.get k).getD 0 := by
  induction d with
  | nil => simp [erase]
  | cons p d ih =>
    obtain ⟨hfresh, hnodup⟩ := List.nodup_cons.mp h
    rw [get_cons]
    by_cases hp : p.1 = k
    · have hd : erase (p :: d) k = d := by
        rw [erase, List.filter_cons, if_neg (by simpa using hp)]
        exact erase_of_fresh (hp ▸ hfresh)
      rw [hd, if_pos hp]
      simp
    · have hd : erase (p :: d) k = p :: erase d k := by
        rw [erase, List.filter_cons, if_pos (by simpa using hp)]
        rfl
      rw [hd, if_neg hp, List.map_cons, List.sum_cons, ih hnodup, List.map_cons, List.sum_cons]
      abel

theorem nodup_erase {d : Dict κ α} (h : (d.map Prod.fst).Nodup) (k : κ) : ((d.erase k).map Prod.fst).Nodup :=
  h.sublist (List.filter_sublist.map Prod.fst)

end Sums

/-! ### Written and read back with sorted keys -/

section Written

variable {κ α β : Type*} [Preorder κ] [DecidableLE κ]

/-- The entries in the order of their keys; those of one key stay in their order. -/
def sortKeys (d : Dict κ α) : Dict κ α := d.insertionSort fun p q => p.1 ≤ q.1

/-- What is read back of a dictionary whose values are written by `f`, its keys sorted. -/
def written (f : α → Option β) (d : Dict κ α) : Option (Dict κ β) := (d.traverse f).map sortKeys

theorem perm_sortKeys (d : Dict κ α) : d.sortKeys.Perm d := List.perm_insertionSort ..

theorem sortKeys_sortKeys [Std.Total (α := κ) (· ≤ ·)] (d : Dict κ α) : d.sortKeys.sortKeys = d.sortKeys := by
  have htotal : Std.Total (α := κ × α) fun p q => p.1 ≤ q.1 := ⟨fun p q => Std.Total.total p.1 q.1⟩
  have htrans : IsTrans (κ × α) fun p q => p.1 ≤ q.1 := ⟨fun _ _ _ h h' => le_trans h h'⟩
  exact (List.pairwise_insertionSort (fun p q : κ × α => p.1 ≤ q.1) d).insertionSort_eq

theorem keys_written {f : α → Option β} {d : Dict κ α} {d' : Dict κ β} (h : d.written f = some d') :
    (d'.map Prod.fst).Perm (d.map Prod.fst) := by
  obtain ⟨entries, hentries, rfl⟩ := Option.map_eq_some_iff.mp h
  exact ((perm_sortKeys entries).map Prod.fst).trans (.of_eq (keys_traverse hentries))

theorem mem_written {f : α → Option β} {d : Dict κ α} {d' : Dict κ β} (h : d.written f = some d') {q : κ × β}
    (hq : q ∈ d') : ∃ v, (q.1, v) ∈ d ∧ f v = some q.2 := by
  obtain ⟨entries, hentries, rfl⟩ := Option.map_eq_some_iff.mp h
  exact mem_traverse hentries ((perm_sortKeys entries).mem_iff.mp hq)

/-- What is written and read back as it is already has sorted keys. -/
theorem written_self [Std.Total (α := κ) (· ≤ ·)] {f : α → Option α} {d : Dict κ α} (h : ∀ p ∈ d, f p.2 = some p.2) :
    d.sortKeys.written f = some d.sortKeys := by
  have hall : ∀ d : Dict κ α, (∀ p ∈ d, f p.2 = some p.2) → d.traverse f = some d := by
    intro d hd
    induction d with
    | nil => rfl
    | cons p d ih =>
      obtain ⟨hp, hd⟩ := List.forall_mem_cons.mp hd
      rw [traverse, hp, Option.bind_some, ih hd]
      rfl
  rw [written, hall _ fun p hp => h p ((perm_sortKeys d).mem_iff.mp hp), Option.map_some, sortKeys_sortKeys]

variable [DecidableEq κ]

theorem get_sortKeys (d : Dict κ α) (k : κ) : d.sortKeys.get k = d.get k := by
  have hinsert : ∀ (p : κ × α) (d : Dict κ α),
      get (d.orderedInsert (fun p q => p.1 ≤ q.1) p) k = if p.1 = k then some p.2 else d.get k := by
    intro p d
    induction d with
    | nil => exact get_cons p [] k
    | cons q d ih =>
      rw [List.orderedInsert_cons]
      split
      · exact get_cons p (q :: d) k
      · next hle =>
        rw [get_cons, ih, get_cons]
        by_cases hp : p.1 = k
        · rw [if_pos hp, if_neg fun hq => hle (hp.trans hq.symm).le, if_pos hp]
        · rw [if_neg hp, if_neg hp]
  induction d with
  | nil => rfl
  | cons p d ih =>
    show get (List.orderedInsert _ p (sortKeys d)) k = _
    rw [hinsert, ih, get_cons]

theorem get_written {f : α → Option β} {d : Dict κ α} {d' : Dict κ β} (h : d.written f = some d') (k : κ) :
    (d.get k).map f = (d'.get k).map some := by
  obtain ⟨entries, hentries, rfl⟩ := Option.map_eq_some_iff.mp h
  rw [get_sortKeys]
  exact get_traverse hentries k

theorem has_written {f : α → Option β} {d : Dict κ α} {d' : Dict κ β} (h : d.written f = some d') (k : κ) :
    d'.has k = d.has k := by
  have hk := congrArg Option.isSome (get_written h k)
  simpa [has] using hk.symm

end Written

end Dict

end AutomlApi
