import Mathlib.Data.String.Basic

/-! Decimal numbers as texts. Numbers that are padded to one width are in the order of their
texts, also in front of other texts. -/

namespace AutomlApi.Digits

theorem digit_le {c : Char} (h : c.isDigit) : '0'.toNat ≤ c.toNat ∧ c.toNat - '0'.toNat ≤ 9 := by
  simp only [Char.isDigit, Bool.and_eq_true, decide_eq_true_eq, UInt32.le_iff_toNat_le] at h
  have hle : 48 ≤ c.toNat ∧ c.toNat ≤ 57 := h
  show 48 ≤ c.toNat ∧ c.toNat - 48 ≤ 9
  omega

/-- The number that digits are read as, by its first digit. -/
theorem ofDigitChars_cons_eq (c : Char) (l : List Char) :
    Nat.ofDigitChars 10 (c :: l) 0 = (c.toNat - '0'.toNat) * 10 ^ l.length + Nat.ofDigitChars 10 l 0 := by
  rw [Nat.ofDigitChars_cons, Nat.ofDigitChars_eq_ofDigitChars_zero, Nat.mul_zero, Nat.zero_add, Nat.mul_comm]

theorem ofDigitChars_lt {l : List Char} (h : ∀ c ∈ l, c.isDigit) : Nat.ofDigitChars 10 l 0 < 10 ^ l.length := by
  induction l with
  | nil => simp
  | cons c l ih =>
    have hc := (digit_le (h c List.mem_cons_self)).2
    have hl := ih fun c hc => h c (List.mem_cons_of_mem _ hc)
    have hmul := Nat.mul_le_mul_right (10 ^ l.length) hc
    rw [ofDigitChars_cons_eq, List.length_cons, Nat.pow_succ]
    omega

/-- Of two numbers with as many digits the smaller one comes first as a text. -/
theorem lt_of_ofDigitChars_lt {l l' : List Char} (hlength : l.length = l'.length) (h : ∀ c ∈ l, c.isDigit)
    (h' : ∀ c ∈ l', c.isDigit) (hlt : Nat.ofDigitChars 10 l 0 < Nat.ofDigitChars 10 l' 0) : l < l' := by
  induction l generalizing l' with
  | nil =>
    cases l' with
    | nil => exact absurd hlt (lt_irrefl _)
    | cons d l' => cases hlength
  | cons c l ih =>
    cases l' with
    | nil => cases hlength
    | cons d l' =>
      have htail : l.length = l'.length := Nat.succ.inj hlength
      rw [ofDigitChars_cons_eq, ofDigitChars_cons_eq, htail] at hlt
      obtain ⟨hc, -⟩ := digit_le (h c List.mem_cons_self)
      obtain ⟨hd, -⟩ := digit_le (h' d List.mem_cons_self)
      have hbound := ofDigitChars_lt fun c hc => h' c (List.mem_cons_of_mem d hc)
      rw [List.cons_lt_cons_iff]
      rcases Nat.lt_trichotomy c.toNat d.toNat with hcd | hcd | hcd
      · exact .inl hcd
      · have hcd : c = d := Char.toNat_inj.mp hcd
        subst hcd
        refine .inr ⟨rfl, ih htail (fun a ha => h a (List.mem_cons_of_mem c ha))
          (fun a ha => h' a (List.mem_cons_of_mem c ha)) ?_⟩
        omega
      · -- a greater first digit outweighs the rest
        have hmul := Nat.mul_le_mul_right (10 ^ l'.length) (show d.toNat - '0'.toNat + 1 ≤ c.toNat - '0'.toNat by omega)
        rw [Nat.add_mul] at hmul
        omega

/-! ### Padding -/

/-- The decimal digits of a number, with zeros in front up to a width. -/
def padded (width n : ℕ) : List Char := List.replicate (width - (Nat.toDigits 10 n).length) '0' ++ Nat.toDigits 10 n

theorem length_padded {width n : ℕ} (h : n < 10 ^ width) (hwidth : 0 < width) : (padded width n).length = width := by
  have hlength := (Nat.length_toDigits_le_iff (by decide) hwidth).mpr h
  simp only [padded, List.length_append, List.length_replicate]
  omega

theorem isDigit_padded (width n : ℕ) : ∀ c ∈ padded width n, c.isDigit := fun c hc => by
  rcases List.mem_append.mp hc with hc | hc
  · rw [List.eq_of_mem_replicate hc]
    decide
  · exact Nat.isDigit_of_mem_toDigits (by decide) (by decide) hc

theorem ofDigitChars_padded (width n : ℕ) : Nat.ofDigitChars 10 (padded width n) 0 = n := by
  rw [padded, Nat.ofDigitChars_append, Nat.ofDigitChars_replicate_zero, Nat.mul_zero, Nat.ofDigitChars_ten_toDigits]

theorem padded_lt {width a b : ℕ} (hwidth : 0 < width) (hab : a < b) (hb : b < 10 ^ width) :
    padded width a < padded width b := by
  refine lt_of_ofDigitChars_lt ?_ (isDigit_padded _ _) (isDigit_padded _ _) ?_
  · rw [length_padded (hab.trans hb) hwidth, length_padded hb hwidth]
  · rwa [ofDigitChars_padded, ofDigitChars_padded]

/-- Texts of one length in front decide first. -/
theorem append_lt_append_iff {l l' r r' : List Char} (h : l.length = l'.length) :
    l ++ r < l' ++ r' ↔ l < l' ∨ l = l' ∧ r < r' := by
  induction l generalizing l' with
  | nil =>
    cases List.length_eq_zero_iff.mp h.symm
    simp
  | cons c l ih =>
    cases l' with
    | nil => cases h
    | cons d l' =>
      rw [List.cons_append, List.cons_append, List.cons_lt_cons_iff, List.cons_lt_cons_iff, ih (Nat.succ.inj h),
        List.cons.injEq]
      tauto

/-- Numbers of one width in front decide as numbers. -/
theorem padded_append_lt_iff {width a b : ℕ} (hwidth : 0 < width) (ha : a < 10 ^ width) (hb : b < 10 ^ width)
    (r r' : List Char) : padded width a ++ r < padded width b ++ r' ↔ a < b ∨ a = b ∧ r < r' := by
  rw [append_lt_append_iff ((length_padded ha hwidth).trans (length_padded hb hwidth).symm)]
  rcases Nat.lt_trichotomy a b with hab | rfl | hba
  · simp [hab, hab.ne, padded_lt hwidth hab hb]
  · simp
  · have hlt := padded_lt hwidth hba ha
    simp [hba.not_gt, hba.ne', lt_asymm hlt, hlt.ne']

end AutomlApi.Digits
