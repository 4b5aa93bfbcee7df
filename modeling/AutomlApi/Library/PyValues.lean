import Mathlib.Data.Rat.Defs
import AutomlApi.Library.Dict

/-! The values of JSON as Python holds them, and `==` on them. Truth values, integers and
floats compare as numbers, dictionaries without the order of their keys. A NaN is not equal
to itself, but a container finds an object that it holds again. -/

namespace AutomlApi

/-- A float; two objects may both be a NaN. -/
inductive PyFloat where
  | finite (x : ℚ)
  | infinity (negative : Bool)
  | nan (object : ℕ)
  deriving DecidableEq

namespace PyFloat

/-- The comparison of numbers. -/
def eq : PyFloat → PyFloat → Bool
  | finite x, finite y => x = y
  | infinity a, infinity b => a == b
  | _, _ => false

theorem eq_iff {x y : PyFloat} : x.eq y ↔ x = y ∧ ∀ n, x ≠ nan n := by
  cases x <;> cases y <;> simp [eq]

/-- `x <= y` for a finite `y`; a NaN compares with nothing. -/
def le : PyFloat → ℚ → Bool
  | finite x, y => x ≤ y
  | infinity negative, _ => negative
  | nan _, _ => false

/-- `x < y` for a finite `y`. -/
def lt : PyFloat → ℚ → Bool
  | finite x, y => x < y
  | infinity negative, _ => negative
  | nan _, _ => false

/-- `math.isfinite`. -/
def isFinite : PyFloat → Bool
  | finite _ => true
  | _ => false

/-- `math.isnan`. -/
def isNaN : PyFloat → Bool
  | nan _ => true
  | _ => false

instance : Coe ℚ PyFloat := ⟨finite⟩

instance (n : ℕ) : OfNat PyFloat n := ⟨finite n⟩

end PyFloat

inductive PyScalar where
  | none
  | bool (b : Bool)
  | int (i : ℤ)
  | float (x : PyFloat)
  | str (s : String)
  deriving DecidableEq

namespace PyScalar

def number : PyScalar → Option PyFloat
  | bool b => some (.finite (if b then 1 else 0))
  | int i => some (.finite i)
  | float x => some x
  | _ => Option.none

def eqNumbers (a b : PyScalar) : Bool :=
  match a.number, b.number with
  | some x, some y => x.eq y
  | _, _ => false

def eq : PyScalar → PyScalar → Bool
  | none, none => true
  | str s, str t => s == t
  | a, b => a.eqNumbers b

/-- The same NaN. -/
def isObject : PyScalar → PyScalar → Bool
  | float (.nan m), float (.nan n) => m == n
  | _, _ => false

end PyScalar

inductive PyValue where
  | scalar (a : PyScalar)
  | list (items : List PyValue)
  | dict (fields : List (String × PyValue))

inductive PyType where
  | noneType | bool | int | float | str | list | dict
  deriving DecidableEq

namespace PyValue

/-- `type(value)`. -/
def type : PyValue → PyType
  | scalar .none => .noneType
  | scalar (.bool _) => .bool
  | scalar (.int _) => .int
  | scalar (.float _) => .float
  | scalar (.str _) => .str
  | list _ => .list
  | dict _ => .dict

/-- `bool(value)`. -/
def truthy : PyValue → Bool
  | scalar .none => false
  | scalar (.bool b) => b
  | scalar (.int i) => i ≠ 0
  | scalar (.float x) => x ≠ .finite 0
  | scalar (.str s) => s ≠ ""
  | list items => !items.isEmpty
  | dict fields => !fields.isEmpty

/-- `fields.get(key)`. -/
def lookup (fields : Dict String PyValue) (key : String) : PyValue := (Dict.get fields key).getD (scalar .none)

/-- `a is b`, as far as it tells more than `a == b`. -/
def isObject : PyValue → PyValue → Bool
  | scalar a, scalar b => a.isObject b
  | _, _ => false

mutual

/-- `a == b`. -/
def eq : PyValue → PyValue → Bool
  | scalar a, scalar b => a.eq b
  | list as, list bs => eqItems as bs
  | dict as, dict bs => as.length == bs.length && eqFields as bs
  | _, _ => false

def eqItems : List PyValue → List PyValue → Bool
  | [], [] => true
  | a :: as, b :: bs => (a.isObject b || eq a b) && eqItems as bs
  | _, _ => false

def eqFields : List (String × PyValue) → List (String × PyValue) → Bool
  | [], _ => true
  | (k, a) :: as, bs =>
    (match Dict.get bs k with
    | some b => a.isObject b || eq a b
    | none => false) && eqFields as bs

end

mutual

/-- No dictionary has a key twice. -/
def Keyed : PyValue → Prop
  | scalar _ => True
  | list items => KeyedItems items
  | dict fields => (fields.map Prod.fst).Nodup ∧ KeyedFields fields

def KeyedItems : List PyValue → Prop
  | [] => True
  | a :: as => Keyed a ∧ KeyedItems as

def KeyedFields : List (String × PyValue) → Prop
  | [] => True
  | (_, a) :: as => Keyed a ∧ KeyedFields as

end

/-- What a container takes for equal. -/
def within (a b : PyValue) : Bool := a.isObject b || a.eq b

end PyValue

/-- A value that Python can hold. -/
structure PyObject where
  value : PyValue
  keyed : value.Keyed

/-! ### The equality -/

namespace PyScalar

theorem eqNumbers_iff {a b : PyScalar} :
    a.eqNumbers b ↔ ∃ x, a.number = some x ∧ b.number = some x ∧ ∀ n, x ≠ .nan n := by
  unfold eqNumbers
  cases ha : a.number with
  | none => simp
  | some x =>
    cases hb : b.number with
    | none => simp
    | some y =>
      simp only [PyFloat.eq_iff, Option.some.injEq]
      constructor
      · rintro ⟨rfl, hx⟩
        exact ⟨x, rfl, rfl, hx⟩
      · rintro ⟨z, rfl, rfl, hz⟩
        exact ⟨rfl, hz⟩

theorem eq_iff {a b : PyScalar} : a.eq b ↔ (a = none ∧ b = none) ∨ (∃ s, a = str s ∧ b = str s) ∨
    ∃ x, a.number = some x ∧ b.number = some x ∧ ∀ n, x ≠ .nan n := by
  rw [← eqNumbers_iff]
  cases a with
  | none => cases b <;> simp [eq, eqNumbers, number]
  | str s => cases b <;> simp [eq, eqNumbers, number, beq_eq_decide, Eq.comm]
  | bool | int | float => simp [eq]

theorem eq_symm {a b : PyScalar} (h : a.eq b) : b.eq a := by
  rw [eq_iff] at h ⊢
  rcases h with ⟨ha, hb⟩ | ⟨s, ha, hb⟩ | ⟨x, ha, hb, hx⟩
  · exact .inl ⟨hb, ha⟩
  · exact .inr (.inl ⟨s, hb, ha⟩)
  · exact .inr (.inr ⟨x, hb, ha, hx⟩)

theorem eq_trans {a b c : PyScalar} (h : a.eq b) (h' : b.eq c) : a.eq c := by
  rw [eq_iff] at h h' ⊢
  rcases h with ⟨rfl, rfl⟩ | ⟨s, rfl, rfl⟩ | ⟨x, ha, hb, hx⟩
  · simpa [number] using h'
  · simpa [number] using h'
  · rcases h' with ⟨rfl, -⟩ | ⟨s, rfl, -⟩ | ⟨y, hb', hc, -⟩
    · cases hb
    · cases hb
    · cases hb.symm.trans hb'
      exact .inr (.inr ⟨x, ha, hc, hx⟩)

theorem eq_self {a : PyScalar} (h : ∀ n, a ≠ float (.nan n)) : a.eq a := by
  rw [eq_iff]
  cases a with
  | none => exact .inl ⟨rfl, rfl⟩
  | str s => exact .inr (.inl ⟨s, rfl, rfl⟩)
  | bool | int => exact .inr (.inr ⟨_, rfl, rfl, nofun⟩)
  | float x => exact .inr (.inr ⟨x, rfl, rfl, fun n hx => h n (by rw [hx])⟩)

theorem isObject_iff {a b : PyScalar} : a.isObject b ↔ a = b ∧ ∃ n, a = float (.nan n) := by
  constructor
  · intro h
    unfold isObject at h
    split at h
    · rename_i m n
      obtain rfl : m = n := by simpa using h
      exact ⟨rfl, m, rfl⟩
    · cases h
  · rintro ⟨rfl, n, rfl⟩
    exact beq_self_eq_true n

end PyScalar

namespace PyValue

theorem within_iff {a b : PyValue} : a.within b ↔ a.eq b ∨ a = b ∧ ∃ n, a = scalar (.float (.nan n)) := by
  unfold within
  rw [Bool.or_eq_true, or_comm]
  refine or_congr_right ?_
  cases a with
  | scalar a =>
    cases b with
    | scalar b => simp [isObject, PyScalar.isObject_iff]
    | _ => simp [isObject]
  | _ => simp [isObject]

theorem eqItems_iff {as bs : List PyValue} : eqItems as bs ↔ List.Forall₂ (fun a b => a.within b) as bs := by
  induction as generalizing bs with
  | nil => cases bs <;> simp [eqItems]
  | cons a as ih =>
    cases bs with
    | nil => simp [eqItems]
    | cons b bs => rw [eqItems, Bool.and_eq_true, ih, List.forall₂_cons]; rfl

theorem eqFields_iff {as bs : List (String × PyValue)} :
    eqFields as bs ↔ ∀ p ∈ as, ∃ b, Dict.get bs p.1 = some b ∧ p.2.within b := by
  induction as with
  | nil => simp [eqFields]
  | cons p as ih =>
    obtain ⟨k, a⟩ := p
    rw [eqFields, Bool.and_eq_true, ih, List.forall_mem_cons]
    refine and_congr_left fun _ => ?_
    cases Dict.get bs k with
    | none => simp
    | some b => simp [within]

theorem keyedItems_iff {items : List PyValue} : KeyedItems items ↔ ∀ a ∈ items, a.Keyed := by
  induction items with
  | nil => simp [KeyedItems]
  | cons a items ih => simp [KeyedItems, ih]

theorem keyedFields_iff {fields : List (String × PyValue)} : KeyedFields fields ↔ ∀ p ∈ fields, p.2.Keyed := by
  induction fields with
  | nil => simp [KeyedFields]
  | cons p fields ih => simp [KeyedFields, ih]

/-- Induction over a value, with what holds of its items and of its fields. -/
theorem induct {P : PyValue → Prop} (hscalar : ∀ a, P (scalar a)) (hlist : ∀ items, (∀ a ∈ items, P a) → P (list items))
    (hdict : ∀ fields : List (String × PyValue), (∀ p ∈ fields, P p.2) → P (dict fields)) (a : PyValue) : P a :=
  @PyValue.rec P (fun items => ∀ a ∈ items, P a) (fun fields => ∀ p ∈ fields, P p.2) (fun p => P p.2)
    hscalar hlist hdict
    (fun _ ha => absurd ha List.not_mem_nil) (fun _ _ ha ih => List.forall_mem_cons.mpr ⟨ha, ih⟩)
    (fun _ hp => absurd hp List.not_mem_nil) (fun _ _ hp ih => List.forall_mem_cons.mpr ⟨hp, ih⟩) (fun _ _ ih => ih) a

theorem eq_list {as bs : List PyValue} : eq (list as) (list bs) ↔ List.Forall₂ (fun a b => a.within b) as bs := by
  rw [eq, eqItems_iff]

theorem eq_dict {as bs : List (String × PyValue)} : eq (dict as) (dict bs) ↔
    as.length = bs.length ∧ ∀ p ∈ as, ∃ b, Dict.get bs p.1 = some b ∧ p.2.within b := by
  rw [eq, Bool.and_eq_true, beq_iff_eq, eqFields_iff]

/-- Values of different shapes are not equal. -/
theorem eq_cases {a b : PyValue} (h : a.eq b) : (∃ x y, a = scalar x ∧ b = scalar y ∧ x.eq y) ∨
    (∃ as bs, a = list as ∧ b = list bs ∧ List.Forall₂ (fun a b => a.within b) as bs) ∨
      ∃ as bs, a = dict as ∧ b = dict bs ∧ as.length = bs.length ∧
        ∀ p ∈ as, ∃ b, Dict.get bs p.1 = some b ∧ p.2.within b := by
  cases a with
  | scalar x =>
    cases b with
    | scalar y => exact .inl ⟨x, y, rfl, rfl, by rwa [eq] at h⟩
    | _ => simp [eq] at h
  | list as =>
    cases b with
    | list bs => exact .inr (.inl ⟨as, bs, rfl, rfl, eq_list.mp h⟩)
    | _ => simp [eq] at h
  | dict as =>
    cases b with
    | dict bs => exact .inr (.inr ⟨as, bs, rfl, rfl, eq_dict.mp h⟩)
    | _ => simp [eq] at h

/-- Two dictionaries of one length have the same keys if one has all keys of the other. -/
theorem keys_subset {as bs : List (String × PyValue)} (ha : (as.map Prod.fst).Nodup)
    (hlength : as.length = bs.length) (h : as.map Prod.fst ⊆ bs.map Prod.fst) : bs.map Prod.fst ⊆ as.map Prod.fst :=
  ((List.subperm_of_subset ha h).perm_of_length_le (by simp [hlength])).symm.subset

theorem eq_symm : ∀ (a : PyValue) {b : PyValue}, a.Keyed → b.Keyed → a.eq b → b.eq a := by
  have hwithin : ∀ {a b : PyValue}, (a.eq b → b.eq a) → a.within b → b.within a := by
    intro a b h hab
    rw [within_iff] at hab ⊢
    rcases hab with hab | ⟨rfl, hnan⟩
    · exact .inl (h hab)
    · exact .inr ⟨rfl, hnan⟩
  intro a
  induction a using induct with
  | hscalar x =>
    intro b _ _ h
    obtain ⟨_, y, hx, rfl, hxy⟩ | ⟨_, _, hx, -⟩ | ⟨_, _, hx, -⟩ := eq_cases h
    · cases hx
      rw [eq]
      exact PyScalar.eq_symm hxy
    · cases hx
    · cases hx
  | hlist items ih =>
    intro b ha hb h
    obtain ⟨_, _, hx, -⟩ | ⟨_, bs, hx, rfl, hbs⟩ | ⟨_, _, hx, -⟩ := eq_cases h
    · cases hx
    · cases hx
      rw [Keyed, keyedItems_iff] at ha hb
      rw [eq_list]
      refine List.forall₂_iff_get.mpr ⟨hbs.length_eq.symm, fun i hi hi' => ?_⟩
      have hget := hbs.get hi' hi
      exact hwithin (fun hab => ih _ (List.get_mem _ _) (ha _ (List.get_mem _ _)) (hb _ (List.get_mem _ _)) hab) hget
    · cases hx
  | hdict fields ih =>
    intro b ha hb h
    obtain ⟨_, _, hx, -⟩ | ⟨_, _, hx, -⟩ | ⟨_, bs, hx, rfl, hlength, hall⟩ := eq_cases h
    · cases hx
    · cases hx
    · cases hx
      obtain ⟨hkeys, ha⟩ := ha
      obtain ⟨hkeys', hb⟩ := hb
      rw [keyedFields_iff] at ha hb
      refine eq_dict.mpr ⟨hlength.symm, fun q hq => ?_⟩
      have hsub : fields.map Prod.fst ⊆ bs.map Prod.fst := by
        intro k hk
        obtain ⟨p, hp, rfl⟩ := List.mem_map.mp hk
        obtain ⟨c, hc, -⟩ := hall p hp
        exact Dict.isSome_get.mp (by rw [hc]; rfl)
      obtain ⟨p, hp, hpq⟩ := List.mem_map.mp (keys_subset hkeys hlength hsub (List.mem_map_of_mem hq))
      obtain ⟨c, hc, hwith⟩ := hall p hp
      have hcq : c = q.2 := Option.some_inj.mp (hc.symm.trans (hpq ▸ Dict.get_of_mem hkeys' hq))
      subst hcq
      refine ⟨p.2, hpq ▸ Dict.get_of_mem hkeys hp, ?_⟩
      exact hwithin (fun hab => ih p hp (ha p hp) (hb q hq) hab) hwith

theorem eq_trans : ∀ (a : PyValue) {b c : PyValue}, a.eq b → b.eq c → a.eq c := by
  have hwithin : ∀ {a b c : PyValue}, (a.eq b → b.eq c → a.eq c) → a.within b → b.within c → a.within c := by
    intro a b c h hab hbc
    rw [within_iff] at hab hbc ⊢
    rcases hab with hab | ⟨rfl, hnan⟩
    · rcases hbc with hbc | ⟨rfl, -⟩
      · exact .inl (h hab hbc)
      · exact .inl hab
    · exact hbc
  intro a
  induction a using induct with
  | hscalar x =>
    intro b c h h'
    obtain ⟨_, y, hx, rfl, hxy⟩ | ⟨_, _, hx, -⟩ | ⟨_, _, hx, -⟩ := eq_cases h
    · cases hx
      obtain ⟨_, z, hy, rfl, hyz⟩ | ⟨_, _, hy, -⟩ | ⟨_, _, hy, -⟩ := eq_cases h'
      · cases hy
        rw [eq]
        exact PyScalar.eq_trans hxy hyz
      · cases hy
      · cases hy
    · cases hx
    · cases hx
  | hlist items ih =>
    intro b c h h'
    obtain ⟨_, _, hx, -⟩ | ⟨_, bs, hx, rfl, hbs⟩ | ⟨_, _, hx, -⟩ := eq_cases h
    · cases hx
    · cases hx
      obtain ⟨_, _, hy, -⟩ | ⟨_, cs, hy, rfl, hcs⟩ | ⟨_, _, hy, -⟩ := eq_cases h'
      · cases hy
      · cases hy
        refine eq_list.mpr (List.forall₂_iff_get.mpr ⟨hbs.length_eq.trans hcs.length_eq, fun i hi hi' => ?_⟩)
        have hi'' : i < bs.length := hbs.length_eq ▸ hi
        exact hwithin (ih _ (List.get_mem _ _)) (hbs.get hi hi'') (hcs.get hi'' hi')
      · cases hy
    · cases hx
  | hdict fields ih =>
    intro b c h h'
    obtain ⟨_, _, hx, -⟩ | ⟨_, _, hx, -⟩ | ⟨_, bs, hx, rfl, hlength, hall⟩ := eq_cases h
    · cases hx
    · cases hx
    · cases hx
      obtain ⟨_, _, hy, -⟩ | ⟨_, _, hy, -⟩ | ⟨_, cs, hy, rfl, hlength', hall'⟩ := eq_cases h'
      · cases hy
      · cases hy
      · cases hy
        refine eq_dict.mpr ⟨hlength.trans hlength', fun p hp => ?_⟩
        obtain ⟨v, hv, hpv⟩ := hall p hp
        obtain ⟨v', hv', hvv'⟩ := hall' _ (Dict.mem_of_get hv)
        exact ⟨v', hv', hwithin (ih p hp) hpv hvv'⟩

/-- Every value but a NaN is equal to itself. -/
theorem eq_self : ∀ a : PyValue, a.Keyed → (∀ n, a ≠ scalar (.float (.nan n))) → a.eq a := by
  have hwithin : ∀ {a : PyValue}, ((∀ n, a ≠ scalar (.float (.nan n))) → a.eq a) → a.within a := by
    intro a h
    rw [within_iff]
    by_cases hnan : ∃ n, a = scalar (.float (.nan n))
    · exact .inr ⟨rfl, hnan⟩
    · exact .inl (h fun n hn => hnan ⟨n, hn⟩)
  intro a
  induction a using induct with
  | hscalar x =>
    intro _ hnan
    rw [eq]
    exact PyScalar.eq_self fun n hx => hnan n (congrArg scalar hx)
  | hlist items ih =>
    intro ha _
    rw [Keyed, keyedItems_iff] at ha
    exact eq_list.mpr (List.forall₂_same.mpr fun a hmem => hwithin (ih a hmem (ha a hmem)))
  | hdict fields ih =>
    intro ha _
    obtain ⟨hkeys, ha⟩ := ha
    rw [keyedFields_iff] at ha
    exact eq_dict.mpr ⟨rfl, fun p hp => ⟨p.2, Dict.get_of_mem hkeys hp, hwithin (ih p hp (ha p hp))⟩⟩

end PyValue

end AutomlApi
