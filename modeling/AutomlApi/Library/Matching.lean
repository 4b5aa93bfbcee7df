import Mathlib.Data.Fintype.EquivFin
import Mathlib.Data.Multiset.Fintype
import Mathlib.Data.Multiset.MapFold

/-! Matching two lists element by element, in any order, under an equality that is symmetric
and transitive but need not be reflexive. Whoever takes out any element that matches, one
after another, finds a matching exactly if there is one. -/

namespace AutomlApi.Matching

variable {α β : Type*}

/-! ### Matchings as bijections -/

/-- The pairs of a matching. -/
theorem rel_iff_pairs {r : α → β → Prop} {s : Multiset α} {t : Multiset β} :
    Multiset.Rel r s t ↔ ∃ m : Multiset (α × β), m.map Prod.fst = s ∧ m.map Prod.snd = t ∧ ∀ p ∈ m, r p.1 p.2 := by
  constructor
  · intro h
    induction h with
    | zero => exact ⟨0, rfl, rfl, fun p hp => absurd hp (Multiset.notMem_zero p)⟩
    | @cons a b s t hab _ ih =>
      obtain ⟨m, rfl, rfl, hm⟩ := ih
      refine ⟨(a, b) ::ₘ m, Multiset.map_cons .., Multiset.map_cons .., fun p hp => ?_⟩
      rcases Multiset.mem_cons.mp hp with rfl | hp
      · exact hab
      · exact hm p hp
  · rintro ⟨m, rfl, rfl, hm⟩
    rw [Multiset.rel_map]
    exact Multiset.rel_refl_of_refl_on hm

theorem rel_univ_iff {ι κ : Type*} [Fintype ι] [Fintype κ] {r : ι → κ → Prop} :
    Multiset.Rel r (Finset.univ : Finset ι).val (Finset.univ : Finset κ).val ↔ ∃ σ : ι ≃ κ, ∀ i, r i (σ i) := by
  constructor
  · intro h
    obtain ⟨m, hfst, hsnd, hm⟩ := rel_iff_pairs.mp h
    have hpair : ∀ i, ∃ j, (i, j) ∈ m := by
      intro i
      have hi : i ∈ m.map Prod.fst := hfst ▸ Finset.mem_univ i
      obtain ⟨⟨_, j⟩, hp, rfl⟩ := Multiset.mem_map.mp hi
      exact ⟨j, hp⟩
    choose f hf using hpair
    have hinj : Function.Injective f := by
      intro i i' heq
      have hnodup : (m.map Prod.snd).Nodup := hsnd ▸ Finset.univ.nodup
      exact congrArg Prod.fst (Multiset.inj_on_of_nodup_map hnodup _ (hf i) _ (hf i') heq)
    have hcard : Fintype.card ι = Fintype.card κ := Multiset.card_eq_card_of_rel h
    exact ⟨.ofBijective f ((Fintype.bijective_iff_injective_and_card f).mpr ⟨hinj, hcard⟩), fun i => hm _ (hf i)⟩
  · rintro ⟨σ, hσ⟩
    refine rel_iff_pairs.mpr ⟨Finset.univ.val.map fun i => (i, σ i), ?_, ?_, ?_⟩
    · simp
    · rw [Multiset.map_map]
      exact congrArg Finset.val (Finset.map_univ_equiv σ)
    · intro p hp
      obtain ⟨i, -, rfl⟩ := Multiset.mem_map.mp hp
      exact hσ i

theorem coe_eq_map_get (l : List α) : (l : Multiset α) = (Finset.univ : Finset (Fin l.length)).val.map l.get := by
  rw [Fin.univ_val_map, List.ofFn_get]

/-- A matching of two lists is a bijection of their positions. -/
theorem rel_coe_iff {r : α → β → Prop} {l : List α} {l' : List β} :
    Multiset.Rel r (l : Multiset α) l' ↔ ∃ σ : Fin l.length ≃ Fin l'.length, ∀ i, r (l.get i) (l'.get (σ i)) := by
  rw [coe_eq_map_get l, coe_eq_map_get l', Multiset.rel_map]
  exact rel_univ_iff

/-! ### Taking out what matches -/

variable (same : α → α → Bool)

/-- The list without its first element that matches. -/
def pop (a : α) : List α → Option (List α)
  | [] => none
  | b :: rest => if same a b then some rest else (pop a rest).map (b :: ·)

/-- What remains of the second list when each element of the first has taken out one that it
matches; nothing if one finds none. -/
def matchAll : List α → List α → Option (List α)
  | [], rest => some rest
  | a :: as, rest => (pop same a rest).bind (matchAll as)

/-- The same, where any element that matches may be taken out. -/
inductive Takes : List α → List α → Option (List α) → Prop
  | done (rest : List α) : Takes [] rest (some rest)
  | stuck (a : α) (as rest : List α) (h : ∀ b ∈ rest, same a b = false) : Takes (a :: as) rest none
  | take (a : α) (as before : List α) (b : α) (after : List α) (result : Option (List α)) (hab : same a b)
      (h : Takes as (before ++ after) result) : Takes (a :: as) (before ++ b :: after) result

variable {same} {as bs : List α}

theorem pop_eq_none {a : α} (h : pop same a bs = none) : ∀ b ∈ bs, same a b = false := by
  induction bs with
  | nil => exact fun b hb => absurd hb List.not_mem_nil
  | cons b bs ih =>
    unfold pop at h
    split at h
    · cases h
    · rename_i hab
      intro c hc
      rcases List.mem_cons.mp hc with rfl | hc
      · simpa using hab
      · exact ih (Option.map_eq_none_iff.mp h) c hc

theorem pop_eq_some {a : α} {rest : List α} (h : pop same a bs = some rest) :
    ∃ before b after, bs = before ++ b :: after ∧ same a b ∧ rest = before ++ after := by
  induction bs generalizing rest with
  | nil => cases h
  | cons b bs ih =>
    unfold pop at h
    split at h
    · rename_i hab
      cases h
      exact ⟨[], b, bs, rfl, hab, rfl⟩
    · obtain ⟨rest', hrest', rfl⟩ := Option.map_eq_some_iff.mp h
      obtain ⟨before, c, after, rfl, hac, rfl⟩ := ih hrest'
      exact ⟨b :: before, c, after, rfl, hac, rfl⟩

/-- The first element that matches is one that matches. -/
theorem takes_matchAll (as bs : List α) : Takes same as bs (matchAll same as bs) := by
  induction as generalizing bs with
  | nil => exact .done bs
  | cons a as ih =>
    unfold matchAll
    cases hpop : pop same a bs with
    | none => exact .stuck a as bs (pop_eq_none hpop)
    | some rest =>
      obtain ⟨before, b, after, rfl, hab, rfl⟩ := pop_eq_some hpop
      exact .take a as before b after _ hab (ih _)

variable (hsymm : ∀ {a b}, same a b → same b a) (htrans : ∀ {a b c}, same a b → same b c → same a c)

include hsymm htrans in
/-- A matching stays when two elements that match are taken out. -/
theorem rel_of_cons_cons {a b : α} {s t : Multiset α} (hab : same a b)
    (h : Multiset.Rel (fun a b => same a b) (a ::ₘ s) (b ::ₘ t)) : Multiset.Rel (fun a b => same a b) s t := by
  obtain ⟨b', t', hab', hst', heq⟩ := Multiset.rel_cons_left.mp h
  rcases Multiset.cons_eq_cons.mp heq with ⟨-, rfl⟩ | ⟨-, u, rfl, rfl⟩
  · exact hst'
  · obtain ⟨a', s', ha'b, hsu, rfl⟩ := Multiset.rel_cons_right.mp hst'
    exact .cons (htrans ha'b (htrans (hsymm hab) hab')) hsu

include hsymm htrans in
/-- Whatever is taken out, nothing remains exactly if there is a matching. -/
theorem takes_nil_iff {result : Option (List α)} (h : Takes same as bs result) :
    result = some [] ↔ Multiset.Rel (fun a b => same a b) (as : Multiset α) bs := by
  induction h with
  | done rest =>
    rw [Multiset.coe_nil, Multiset.rel_zero_left, Multiset.coe_eq_zero, Option.some_inj]
  | stuck a as rest h =>
    refine ⟨nofun, fun hrel => ?_⟩
    rw [← Multiset.cons_coe] at hrel
    obtain ⟨b, t, hab, -, heq⟩ := Multiset.rel_cons_left.mp hrel
    have hb : b ∈ rest := Multiset.mem_coe.mp (heq ▸ Multiset.mem_cons_self b t)
    rw [h b hb] at hab
    cases hab
  | take a as before b after result hab _ ih =>
    have hmiddle : ((before ++ b :: after : List α) : Multiset α) = b ::ₘ (before ++ after : List α) :=
      Multiset.coe_eq_coe.mpr List.perm_middle
    rw [ih, hmiddle, ← Multiset.cons_coe]
    exact ⟨fun hrel => .cons hab hrel, fun hrel => rel_of_cons_cons @hsymm @htrans hab hrel⟩

end AutomlApi.Matching
