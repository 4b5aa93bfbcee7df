import AutomlApi.Library.Digits

/-! The times that the service writes down, and their texts. The text of a time leaves the
fraction of the second out where it is zero; a text that goes on with a fraction comes
before one that ends there. -/

namespace AutomlApi.Webhooks

open Digits (padded)

/-- A time in UTC, to the microsecond. -/
structure Datetime where
  year : ℕ
  month : ℕ
  day : ℕ
  hour : ℕ
  minute : ℕ
  second : ℕ
  microsecond : ℕ
  year_lt : year < 10000
  month_lt : month < 13
  day_lt : day < 32
  hour_lt : hour < 24
  minute_lt : minute < 60
  second_lt : second < 60
  microsecond_lt : microsecond < 1000000
  deriving DecidableEq

namespace Datetime

/-- The time with these numbers, each taken within its bound. -/
def ofNumbers (year month day hour minute second microsecond : ℕ) : Datetime :=
  ⟨year % 10000, month % 13, day % 32, hour % 24, minute % 60, second % 60, microsecond % 1000000,
    Nat.mod_lt _ (by decide), Nat.mod_lt _ (by decide), Nat.mod_lt _ (by decide), Nat.mod_lt _ (by decide),
    Nat.mod_lt _ (by decide), Nat.mod_lt _ (by decide), Nat.mod_lt _ (by decide)⟩

/-- The time without its fraction, from the year down. -/
def toSecond (t : Datetime) : List ℕ := [t.year, t.month, t.day, t.hour, t.minute, t.second]

instance : LT Datetime := ⟨fun a b => a.toSecond < b.toSecond ∨ a.toSecond = b.toSecond ∧ a.microsecond < b.microsecond⟩

instance (a b : Datetime) : Decidable (a < b) :=
  inferInstanceAs (Decidable (a.toSecond < b.toSecond ∨ a.toSecond = b.toSecond ∧ a.microsecond < b.microsecond))

/-- The fraction of the second, and the end of the text. -/
def fraction (t : Datetime) : List Char :=
  (if t.microsecond = 0 then [] else '.' :: padded 6 t.microsecond) ++ ['Z']

/-- `isoformat().replace("+00:00", "Z")`. -/
def iso (t : Datetime) : String :=
  String.ofList (padded 4 t.year ++ '-' :: (padded 2 t.month ++ '-' :: (padded 2 t.day ++ 'T' :: (padded 2 t.hour ++
    ':' :: (padded 2 t.minute ++ ':' :: (padded 2 t.second ++ t.fraction))))))

theorem fraction_lt_iff (a b : Datetime) :
    a.fraction < b.fraction ↔ a.microsecond ≠ 0 ∧ (b.microsecond = 0 ∨ a.microsecond < b.microsecond) := by
  have hone : ¬ (['Z'] : List Char) < ['Z'] := lt_irrefl _
  have hpoint : ∀ r : List Char, ('.' :: r : List Char) < ['Z'] := fun r => List.cons_lt_cons_iff.mpr (.inl (by decide))
  have hend : ∀ r : List Char, ¬ (['Z'] : List Char) < '.' :: r := fun r => lt_asymm (hpoint r)
  unfold fraction
  by_cases ha : a.microsecond = 0
  · by_cases hb : b.microsecond = 0
    · simp [ha, hb]
    · simp only [ha, hb, if_true, if_false, List.nil_append, List.cons_append, ne_eq, not_true, false_and, iff_false]
      exact hend _
  · by_cases hb : b.microsecond = 0
    · simp only [ha, hb, if_true, if_false, List.nil_append, List.cons_append, ne_eq, not_false_eq_true, true_or,
        and_true, iff_true]
      exact hpoint _
    · simp only [ha, hb, if_false, List.cons_append, ne_eq, not_false_eq_true, true_and, false_or,
        List.cons_lt_cons_iff, lt_irrefl]
      rw [Digits.padded_append_lt_iff (by decide) a.microsecond_lt b.microsecond_lt]
      simp

/-- Which of two texts comes first. -/
theorem iso_lt_iff (a b : Datetime) :
    a.iso < b.iso ↔ a.toSecond < b.toSecond ∨ a.toSecond = b.toSecond ∧ a.fraction < b.fraction := by
  have hsep : ∀ {width m n : ℕ} {c : Char} {r r' : List Char}, 0 < width → m < 10 ^ width → n < 10 ^ width →
      (padded width m ++ c :: r < padded width n ++ c :: r' ↔ m < n ∨ m = n ∧ r < r') := fun hwidth hm hn => by
    rw [Digits.padded_append_lt_iff hwidth hm hn, List.cons_lt_cons_iff]
    simp
  have hwide : ∀ {n k : ℕ}, n < k → k ≤ 100 → n < 10 ^ 2 := fun h h' => h.trans_le h'
  unfold iso toSecond
  rw [String.lt_iff_toList_lt, String.toList_ofList, String.toList_ofList,
    hsep (by decide) a.year_lt b.year_lt,
    hsep (by decide) (hwide a.month_lt (by decide)) (hwide b.month_lt (by decide)),
    hsep (by decide) (hwide a.day_lt (by decide)) (hwide b.day_lt (by decide)),
    hsep (by decide) (hwide a.hour_lt (by decide)) (hwide b.hour_lt (by decide)),
    hsep (by decide) (hwide a.minute_lt (by decide)) (hwide b.minute_lt (by decide)),
    Digits.padded_append_lt_iff (by decide) (hwide a.second_lt (by decide)) (hwide b.second_lt (by decide))]
  simp only [List.cons_lt_cons_iff, List.cons.injEq, List.lt_irrefl, and_true, and_false, or_false]
  tauto

/-- Texts are in the order of the times, unless the earlier time is a whole second, and the
later one in the same second. -/
theorem iso_lt_iff_of_lt {a b : Datetime} (h : a < b) :
    a.iso < b.iso ↔ ¬ (a.toSecond = b.toSecond ∧ a.microsecond = 0) := by
  rw [iso_lt_iff, fraction_lt_iff]
  rcases h with h | ⟨h, hmicro⟩
  · have hne : a.toSecond ≠ b.toSecond := h.ne
    simp [h, hne]
  · simp only [h, lt_irrefl, false_or, true_and, hmicro, or_true, and_true]

/-- The texts of two times differ. -/
theorem iso_injective : Function.Injective iso := fun a b h => by
  have hlt : ¬ a.iso < b.iso := h ▸ String.lt_irrefl _
  have hgt : ¬ b.iso < a.iso := h ▸ String.lt_irrefl _
  rw [iso_lt_iff, fraction_lt_iff] at hlt hgt
  push Not at hlt hgt
  have hsecond : a.toSecond = b.toSecond := le_antisymm hgt.1 hlt.1
  have hmicro : a.microsecond = b.microsecond := by
    have hlt := hlt.2 hsecond
    have hgt := hgt.2 hsecond.symm
    omega
  simp only [toSecond, List.cons.injEq, and_true] at hsecond
  cases a
  cases b
  simp_all

/-! ### Adding to a time -/

instance : LE Datetime := ⟨fun a b => a.toSecond < b.toSecond ∨ a.toSecond = b.toSecond ∧ a.microsecond ≤ b.microsecond⟩

instance (a b : Datetime) : Decidable (a ≤ b) :=
  inferInstanceAs (Decidable (a.toSecond < b.toSecond ∨ a.toSecond = b.toSecond ∧ a.microsecond ≤ b.microsecond))

/-- `_days_in_month`. -/
def daysInMonth (year month : ℕ) : ℕ :=
  if month = 2 then if year % 4 = 0 ∧ (year % 100 ≠ 0 ∨ year % 400 = 0) then 29 else 28
  else if month ∈ [4, 6, 9, 11] then 30 else 31

theorem daysInMonth_le (year month : ℕ) : daysInMonth year month ≤ 31 := by
  unfold daysInMonth
  split_ifs <;> omega

/-- The same time a day later, if the calendar goes that far. -/
def nextDay (t : Datetime) : Option Datetime :=
  if h : t.day < daysInMonth t.year t.month then
    some { t with day := t.day + 1, day_lt := Nat.succ_lt_succ (h.trans_le (daysInMonth_le _ _)) }
  else if h : t.month < 12 then
    some { t with month := t.month + 1, month_lt := Nat.succ_lt_succ h, day := 1, day_lt := by decide }
  else if h : t.year < 9999 then
    some { t with year := t.year + 1, year_lt := Nat.succ_lt_succ h, month := 1, month_lt := by decide,
                  day := 1, day_lt := by decide }
  else none

def laterDays : ℕ → Datetime → Option Datetime
  | 0, t => some t
  | n + 1, t => t.nextDay.bind (laterDays n)

/-- `t + timedelta(minutes=n)`. -/
def addMinutes (n : ℕ) (t : Datetime) : Option Datetime :=
  let minute := t.minute + n
  let hour := t.hour + minute / 60
  (laterDays (hour / 24) t).map fun day =>
    { day with hour := hour % 24, hour_lt := Nat.mod_lt _ (by decide),
               minute := minute % 60, minute_lt := Nat.mod_lt _ (by decide) }

/-- The time without the time of day. -/
def toDay (t : Datetime) : List ℕ := [t.year, t.month, t.day]

theorem nextDay_eq_some {t u : Datetime} (h : t.nextDay = some u) :
    t.toDay < u.toDay ∧ u.second = t.second ∧ u.microsecond = t.microsecond := by
  unfold nextDay at h
  split at h
  · cases h
    exact ⟨by simp [toDay, List.cons_lt_cons_iff], rfl, rfl⟩
  split at h
  · cases h
    exact ⟨by simp [toDay, List.cons_lt_cons_iff], rfl, rfl⟩
  split at h
  · cases h
    exact ⟨by simp [toDay, List.cons_lt_cons_iff], rfl, rfl⟩
  · cases h

theorem laterDays_eq_some {n : ℕ} {t u : Datetime} (h : laterDays n t = some u) :
    (n = 0 ∧ u = t ∨ t.toDay < u.toDay) ∧ u.second = t.second ∧ u.microsecond = t.microsecond := by
  induction n generalizing t with
  | zero =>
    cases h
    exact ⟨.inl ⟨rfl, rfl⟩, rfl, rfl⟩
  | succ n ih =>
    obtain ⟨v, hv, h⟩ := Option.bind_eq_some_iff.mp h
    obtain ⟨hday, hsecond, hmicro⟩ := nextDay_eq_some hv
    obtain ⟨hrest, hsecond', hmicro'⟩ := ih h
    refine ⟨.inr ?_, hsecond'.trans hsecond, hmicro'.trans hmicro⟩
    rcases hrest with ⟨-, rfl⟩ | hrest
    · exact hday
    · exact hday.trans hrest

theorem toSecond_lt_of_toDay {t u : Datetime} (h : t.toDay < u.toDay) : t.toSecond < u.toSecond := by
  simp only [toDay, toSecond, List.cons_lt_cons_iff, List.not_lt_nil, and_false, or_false] at h ⊢
  omega

/-- A time some minutes later is in a later second, with the same fraction. -/
theorem addMinutes_eq_some {n : ℕ} (hn : 0 < n) {t u : Datetime} (h : t.addMinutes n = some u) :
    t.toSecond < u.toSecond ∧ u.second = t.second ∧ u.microsecond = t.microsecond := by
  obtain ⟨day, hday, rfl⟩ := Option.map_eq_some_iff.mp h
  obtain ⟨hlater, hsecond, hmicro⟩ := laterDays_eq_some hday
  refine ⟨?_, hsecond, hmicro⟩
  rcases hlater with ⟨hsame, rfl⟩ | hlater
  · -- the same day: the hour is later, or the minute in the same hour
    have hminute := day.minute_lt
    simp only [toSecond, List.cons_lt_cons_iff, lt_irrefl, true_and, false_or, and_false, or_false]
    omega
  · exact toSecond_lt_of_toDay hlater

end Datetime

end AutomlApi.Webhooks
