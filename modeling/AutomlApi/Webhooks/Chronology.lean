import AutomlApi.Uploads.Sessions
import AutomlApi.Webhooks.Dispatcher

/-! What the service decides by comparing the texts of two times, and what it would decide
by the times. The two agree on all pairs of times but those of one second of which exactly
one is a whole second. -/

namespace AutomlApi.Webhooks

variable {a b : Datetime}

/-- The texts of two times compare as the times do, and so does each decision on them: the
end of an upload session, a delivery that is due, the age of a delivery, and the order of
the deliveries of an endpoint. -/
structure Chronological (a b : Datetime) : Prop where
  before : a.iso < b.iso ↔ a < b
  after : b.iso < a.iso ↔ b < a
  same : a.iso = b.iso ↔ a = b
  upload : Uploads.expired (some a.iso) b.iso ↔ a < b
  due : ∀ n (delivery : Delivery), delivery.status.unfinished → delivery.status ≠ .delivering →
    delivery.nextAttemptAt = some a.iso → (due b.iso [] [(n, delivery)] = some (n, delivery) ↔ ¬ b < a)
  age : ∀ (settings : Settings) (clock : Clock) (delivery : Delivery), delivery.firstAttemptAt = some a.iso →
    clock.ageDeadline = b.iso →
      (delivery.isExhausted settings clock ↔ settings.maxAttempts ≤ delivery.attemptCount ∨ a < b)
  order : ∀ m n (d d' : Delivery), d.createdAt = a.iso → d'.createdAt = b.iso →
    (Before (m, d) (n, d') ↔ a < b ∨ a = b ∧ deliveryId m ≤ deliveryId n)

/-- All decisions are comparisons. -/
theorem chronological_of_compare (hbefore : a.iso < b.iso ↔ a < b) (hafter : b.iso < a.iso ↔ b < a) :
    Chronological a b where
  before := hbefore
  after := hafter
  same := Datetime.iso_injective.eq_iff
  upload := by rw [Uploads.expired, Option.any_some, decide_eq_true_iff, hbefore]
  due n delivery hunfinished hdelivering hnext := by
    have hlater : (due b.iso [] [(n, delivery)] = some (n, delivery)) ↔ ¬ b.iso < a.iso := by
      simp only [due, hunfinished, not_true, if_false, List.not_mem_nil, hdelivering, hnext, Option.any_some,
        decide_eq_true_iff]
      split_ifs with h <;> simp [h]
    rw [hlater, hafter]
  age settings clock delivery hfirst hdeadline := by
    rw [Delivery.isExhausted, decide_eq_true_iff, hfirst, hdeadline, Option.getD_some, hbefore]
  order m n d d' hd hd' := by
    unfold Before
    rw [hd, hd', hbefore, Datetime.iso_injective.eq_iff]

/-- The times of one second of which one is whole are in the other order as texts. -/
theorem iso_lt_iff_of_uniform (h : a.toSecond = b.toSecond → (a.microsecond = 0 ↔ b.microsecond = 0)) :
    a.iso < b.iso ↔ a < b := by
  rw [Datetime.iso_lt_iff, Datetime.fraction_lt_iff]
  show _ ↔ a.toSecond < b.toSecond ∨ a.toSecond = b.toSecond ∧ a.microsecond < b.microsecond
  refine or_congr_right (and_congr_right fun hsecond => ?_)
  have h := h hsecond
  omega

/-- Texts stand for their times, unless they are of one second, and one of them is whole. -/
theorem chronological_iff (a b : Datetime) :
    Chronological a b ↔ (a.toSecond = b.toSecond → (a.microsecond = 0 ↔ b.microsecond = 0)) := by
  constructor
  · intro h hsecond
    have hbefore := h.before
    rw [Datetime.iso_lt_iff, Datetime.fraction_lt_iff] at hbefore
    have hbefore : a.microsecond ≠ 0 ∧ (b.microsecond = 0 ∨ a.microsecond < b.microsecond) ↔
        a.microsecond < b.microsecond := by
      have hlt : a < b ↔ a.toSecond < b.toSecond ∨ a.toSecond = b.toSecond ∧ a.microsecond < b.microsecond := Iff.rfl
      rw [hlt] at hbefore
      simpa only [hsecond, lt_irrefl, false_or, true_and] using hbefore
    omega
  · intro h
    exact chronological_of_compare (iso_lt_iff_of_uniform h) (iso_lt_iff_of_uniform fun hsecond => (h hsecond.symm).symm)

/-- Half a second past a whole second. -/
def halfPast (t : Datetime) : Datetime := { t with microsecond := 500000, microsecond_lt := by decide }

/-- The text of half past a second comes before the one of the second. -/
theorem not_chronological : ¬ Chronological (Uploads.evening 21 10) (halfPast (Uploads.evening 21 10)) := fun h =>
  absurd (h.before.mpr (by decide)) (by decide +kernel)

end AutomlApi.Webhooks
