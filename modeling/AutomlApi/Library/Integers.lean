import AutomlApi.Library.Digits
import AutomlApi.Library.Reader
import Mathlib.Data.List.TakeWhile

/-! The integers that `int()` reads from texts, and the texts that `str.isdigit()` takes. A
number may be written in the decimal digits of any script, with a sign, spaces around it and
underscores between its digits, and is not read when it has more than 4300 digits; and there
are digits that are not decimal. -/

namespace AutomlApi.Integers

open Scalar (digits)

/-! ### Characters -/

/-- The zeros of the scripts that have decimal digits; the others follow each. -/
def decimalZeros : List ℕ :=
  [0x30, 0x660, 0x6F0, 0x7C0, 0x966, 0x9E6, 0xA66, 0xAE6, 0xB66, 0xBE6, 0xC66, 0xCE6, 0xD66, 0xDE6, 0xE50, 0xED0, 0xF20,
    0x1040, 0x1090, 0x17E0, 0x1810, 0x1946, 0x19D0, 0x1A80, 0x1A90, 0x1B50, 0x1BB0, 0x1C40, 0x1C50, 0xA620, 0xA8D0, 0xA900,
    0xA9D0, 0xA9F0, 0xAA50, 0xABF0, 0xFF10, 0x104A0, 0x10D30, 0x11066, 0x110F0, 0x11136, 0x111D0, 0x112F0, 0x11450,
    0x114D0, 0x11650, 0x116C0, 0x11730, 0x118E0, 0x11950, 0x11C50, 0x11D50, 0x11DA0, 0x11F50, 0x16A60, 0x16AC0, 0x16B50,
    0x1D7CE, 0x1D7D8, 0x1D7E2, 0x1D7EC, 0x1D7F6, 0x1E140, 0x1E2F0, 0x1E4F0, 0x1E950, 0x1FBF0]

/-- `unicodedata.decimal`. -/
def decimal (c : Char) : Option ℕ :=
  (decimalZeros.find? fun z => z ≤ c.toNat ∧ c.toNat < z + 10).map (c.toNat - ·)

/-- The digits that are not decimal: superscripts, digits in circles and the like. -/
def digitRanges : List (ℕ × ℕ) :=
  [(0xB2, 0xB3), (0xB9, 0xB9), (0x1369, 0x1371), (0x19DA, 0x19DA), (0x2070, 0x2070), (0x2074, 0x2079), (0x2080, 0x2089),
    (0x2460, 0x2468), (0x2474, 0x247C), (0x2488, 0x2490), (0x24EA, 0x24EA), (0x24F5, 0x24FD), (0x24FF, 0x24FF),
    (0x2776, 0x277E), (0x2780, 0x2788), (0x278A, 0x2792), (0x10A40, 0x10A43), (0x10E60, 0x10E68), (0x11052, 0x1105A),
    (0x1F100, 0x1F10A)]

def isDigit (c : Char) : Bool := (decimal c).isSome || digitRanges.any fun r => r.1 ≤ c.toNat ∧ c.toNat ≤ r.2

/-- `str.isdigit()`. -/
def isdigit (cs : List Char) : Bool := !cs.isEmpty && cs.all isDigit

/-- The ranges of white space. -/
def spaceRanges : List (ℕ × ℕ) :=
  [(0x9, 0xD), (0x1C, 0x20), (0x85, 0x85), (0xA0, 0xA0), (0x1680, 0x1680), (0x2000, 0x200A), (0x2028, 0x2029),
    (0x202F, 0x202F), (0x205F, 0x205F), (0x3000, 0x3000)]

def isSpace (c : Char) : Bool := spaceRanges.any fun r => r.1 ≤ c.toNat ∧ c.toNat ≤ r.2

/-- A text without the characters of a kind at its ends. -/
def trim (p : Char → Bool) (cs : List Char) : List Char := ((cs.dropWhile p).reverse.dropWhile p).reverse

/-- `str.strip()`. -/
def strip (cs : List Char) : List Char := trim isSpace cs

/-! ### Numbers -/

/-- What `int()` makes of a character before it reads the text. -/
def ascii (c : Char) : Char :=
  if c.toNat < 127 then c
  else if isSpace c then ' '
  else match decimal c with
    | some d => Nat.digitChar d
    | none => '?'

def blank (c : Char) : Bool := c ∈ [' ', '\t', '\n', '\x0B', '\x0C', '\r']

/-- Digits, with single underscores between them. -/
def grouped : List Char → Bool
  | [] => false
  | [c] => c.isDigit
  | c :: '_' :: cs => c.isDigit && grouped cs
  | c :: cs => c.isDigit && grouped cs

def magnitude (cs : List Char) : Option ℕ :=
  let ds := cs.filter (· ≠ '_')
  if grouped cs ∧ ds.length ≤ 4300 then some (Nat.ofDigitChars 10 ds 0) else none

def signed : List Char → Option ℤ
  | '-' :: cs => (magnitude cs).map fun n : ℕ => -(n : ℤ)
  | '+' :: cs => (magnitude cs).map Int.ofNat
  | cs => (magnitude cs).map Int.ofNat

/-- `int()`; without a result it raises `ValueError`. -/
def int (cs : List Char) : Option ℤ := signed (trim blank (cs.map ascii))

example : int " +1_0 ".toList = some 10 := by decide

/-! ### Digits -/

theorem ascii_of_isDigit {c : Char} (h : c.isDigit) : ascii c = c := by
  obtain ⟨-, hle⟩ := Digits.digit_le h
  have hlt : c.toNat < 127 := by
    have hzero : '0'.toNat = 48 := rfl
    omega
  exact if_pos hlt

theorem not_blank_of_isDigit {c : Char} (h : c.isDigit) : blank c = false := by
  simp only [blank, decide_eq_false_iff_not, List.mem_cons, List.not_mem_nil, or_false]
  rintro (rfl | rfl | rfl | rfl | rfl | rfl) <;> exact absurd h (by decide)

theorem trim_eq_self {p : Char → Bool} {cs : List Char} (h : ∀ c ∈ cs, p c = false) : trim p cs = cs := by
  have hkeep : ∀ l : List Char, (∀ c ∈ l, p c = false) → l.dropWhile p = l := by
    intro l hl
    cases l with
    | nil => rfl
    | cons c l => exact List.dropWhile_cons_of_neg (by simp [hl c List.mem_cons_self])
  rw [trim, hkeep cs h, hkeep cs.reverse fun c hc => h c (List.mem_reverse.mp hc), List.reverse_reverse]

theorem mem_trim {p : Char → Bool} {cs : List Char} {c : Char} (hc : c ∈ cs) (hp : p c = false) : c ∈ trim p cs := by
  have hkeep : ∀ l : List Char, c ∈ l → c ∈ l.dropWhile p := by
    intro l hl
    have hl := List.takeWhile_append_dropWhile (p := p) (l := l) ▸ hl
    refine (List.mem_append.mp hl).resolve_left fun htake => ?_
    rw [List.mem_takeWhile_imp htake] at hp
    cases hp
  exact List.mem_reverse.mpr (hkeep _ (List.mem_reverse.mpr (hkeep cs hc)))

theorem dropWhile_append {p : Char → Bool} {l cs : List Char} (hl : ∀ c ∈ l, p c) : (l ++ cs).dropWhile p = cs.dropWhile p := by
  induction l with
  | nil => rfl
  | cons c l ih =>
    rw [List.cons_append, List.dropWhile_cons_of_pos (hl c List.mem_cons_self)]
    exact ih fun c hc => hl c (List.mem_cons_of_mem _ hc)

/-- Only the ends of a text are trimmed. -/
theorem trim_append {p : Char → Bool} {l cs r : List Char} (hl : ∀ c ∈ l, p c) (hcs : ∀ c ∈ cs, p c = false)
    (hr : ∀ c ∈ r, p c) : trim p (l ++ cs ++ r) = cs := by
  cases cs with
  | nil =>
    have hnone : (l ++ [] ++ r).dropWhile p = [] := by
      rw [List.append_nil, dropWhile_append hl]
      exact List.dropWhile_eq_nil_iff.mpr hr
    rw [trim, hnone]
    rfl
  | cons c cs =>
    have hc := hcs c List.mem_cons_self
    have hleft : (l ++ c :: cs ++ r).dropWhile p = c :: cs ++ r := by
      rw [List.append_assoc, dropWhile_append hl]
      exact List.dropWhile_cons_of_neg (by simp [hc])
    have hkeep := trim_eq_self hcs
    rw [trim, List.dropWhile_cons_of_neg (by simp [hc])] at hkeep
    rw [trim, hleft, List.reverse_append, dropWhile_append fun c hc => hr c (List.mem_reverse.mp hc)]
    exact hkeep

theorem mem_digits {cs : List Char} (h : digits cs) : ∀ c ∈ cs, c.isDigit := by
  simp only [digits, Bool.and_eq_true] at h
  exact List.all_eq_true.mp h.2

theorem grouped_of_digits {cs : List Char} (h : digits cs) : grouped cs := by
  induction cs using grouped.induct with
  | case1 => cases h
  | case2 c => exact mem_digits h c List.mem_cons_self
  | case3 c cs ih => exact absurd (mem_digits h '_' (by simp)) (by decide)
  | case4 c cs hnil hunder ih =>
    have hrest : digits cs := by
      cases cs with
      | nil => exact absurd rfl (hnil)
      | cons d cs =>
        simp only [digits, Bool.and_eq_true, List.all_cons] at h ⊢
        exact ⟨rfl, h.2.2⟩
    rw [grouped.eq_4 c cs hnil hunder, mem_digits h c List.mem_cons_self, ih hrest]
    rfl

theorem mem_grouped {cs : List Char} (h : grouped cs) : ∀ c ∈ cs, c.isDigit ∨ c = '_' := by
  induction cs using grouped.induct with
  | case1 => nofun
  | case2 c => exact fun d hd => .inl (List.mem_singleton.mp hd ▸ h)
  | case3 c cs ih =>
    simp only [grouped, Bool.and_eq_true] at h
    simp only [List.mem_cons, forall_eq_or_imp]
    exact ⟨.inl h.1, .inr trivial, ih h.2⟩
  | case4 c cs hnil hunder ih =>
    rw [grouped.eq_4 c cs hnil hunder, Bool.and_eq_true] at h
    simp only [List.mem_cons, forall_eq_or_imp]
    exact ⟨.inl h.1, ih h.2⟩

theorem magnitude_of_digits {cs : List Char} (h : digits cs) :
    magnitude cs = if cs.length ≤ 4300 then some (Nat.ofDigitChars 10 cs 0) else none := by
  have hfilter : cs.filter (· ≠ '_') = cs := by
    refine List.filter_eq_self.mpr fun c hc => decide_eq_true ?_
    rintro rfl
    exact absurd (mem_digits h _ hc) (by decide)
  rw [magnitude, hfilter, grouped_of_digits h]
  simp

theorem signed_of_digits {cs : List Char} (h : digits cs) : signed cs = (magnitude cs).map Int.ofNat := by
  unfold signed
  split
  · exact absurd (mem_digits h '-' List.mem_cons_self) (by decide)
  · exact absurd (mem_digits h '+' List.mem_cons_self) (by decide)
  · rfl

theorem signed_trim_of_digits {ds : List Char} (h : digits ds) :
    signed (trim blank ds) = if ds.length ≤ 4300 then some (Nat.ofDigitChars 10 ds 0 : ℤ) else none := by
  rw [trim_eq_self fun c hc => not_blank_of_isDigit (mem_digits h c hc), signed_of_digits h, magnitude_of_digits h]
  split <;> rfl

/-- A text in ASCII digits is read as the number they write, if there are not too many. -/
theorem int_of_digits {cs : List Char} (h : digits cs) :
    int cs = if cs.length ≤ 4300 then some (Nat.ofDigitChars 10 cs 0 : ℤ) else none := by
  have hascii : cs.map ascii = cs := (List.map_congr_left fun c hc => ascii_of_isDigit (mem_digits h c hc)).trans (List.map_id cs)
  rw [int, hascii, signed_trim_of_digits h]

/-- ASCII digits without a zero in front. -/
def numeral (cs : List Char) : Bool := digits cs && cs.head? ≠ some '0'

theorem digits_of_numeral {cs : List Char} (h : numeral cs) : digits cs := by
  simp only [numeral, Bool.and_eq_true] at h
  exact h.1

theorem numeral_pos {cs : List Char} (h : numeral cs) : 0 < Nat.ofDigitChars 10 cs 0 := by
  cases cs with
  | nil => cases h
  | cons c cs =>
    have hc := mem_digits (digits_of_numeral h) c List.mem_cons_self
    have hne : c ≠ '0' := by
      rintro rfl
      simp [numeral] at h
    obtain ⟨hle, -⟩ := Digits.digit_le hc
    have hlt : 0 < c.toNat - '0'.toNat := by
      have hval : c.toNat ≠ '0'.toNat := fun heq => hne (Char.toNat_inj.mp heq)
      omega
    rw [Digits.ofDigitChars_cons_eq]
    have hpow : 0 < 10 ^ cs.length := Nat.pow_pos (by decide)
    exact Nat.add_pos_left (Nat.mul_pos hlt hpow) _

theorem numeral_toDigits {n : ℕ} (h : 0 < n) : numeral (Nat.toDigits 10 n) := by
  simp [numeral, Scalar.digits_toDigits, Scalar.head_toDigits h]

/-! ### Decimals and other digits -/

/-- The number that the decimal digits of a text write, of whatever script. -/
def value (cs : List Char) : ℕ := cs.foldl (fun n c => 10 * n + (decimal c).getD 0) 0

theorem decimal_eq_some {c : Char} {d : ℕ} (h : decimal c = some d) : ∃ z ∈ decimalZeros, c.toNat = z + d ∧ d < 10 := by
  obtain ⟨z, hz, rfl⟩ := Option.map_eq_some_iff.mp h
  have hrange := List.find?_some hz
  simp only [decide_eq_true_eq] at hrange
  exact ⟨z, List.mem_of_find?_eq_some hz, by omega, by omega⟩

theorem isSpace_toNat {c : Char} (h : isSpace c) : ∃ r ∈ spaceRanges, r.1 ≤ c.toNat ∧ c.toNat ≤ r.2 := by
  simpa [isSpace, List.any_eq_true] using h

theorem not_isSpace_of_decimal {c : Char} {d : ℕ} (h : decimal c = some d) : isSpace c = false := by
  obtain ⟨z, hz, hc, hd⟩ := decimal_eq_some h
  have hapart : ∀ z ∈ decimalZeros, ∀ r ∈ spaceRanges, r.2 < z ∨ z + 9 < r.1 := by decide
  refine Bool.eq_false_iff.mpr fun hspace => ?_
  obtain ⟨r, hr, hlow, hhigh⟩ := isSpace_toNat hspace
  have := hapart z hz r hr
  omega

theorem ascii_of_decimal {c : Char} {d : ℕ} (h : decimal c = some d) : ascii c = Nat.digitChar d := by
  obtain ⟨z, hz, hc, hd⟩ := decimal_eq_some h
  unfold ascii
  split
  · next hlt =>
    have hzero : ∀ z ∈ decimalZeros, z < 127 → z = 48 := by decide
    have hz := hzero z hz (by omega)
    apply Char.toNat_inj.mp
    rw [Nat.toNat_digitChar_of_lt_ten hd]
    omega
  · rw [not_isSpace_of_decimal h, h]
    rfl

theorem digits_of_decimals {cs : List Char} (hne : cs ≠ []) (h : ∀ c ∈ cs, (decimal c).isSome) : digits (cs.map ascii) := by
  simp only [digits, Bool.and_eq_true, List.all_eq_true, List.mem_map, Bool.not_eq_true', List.isEmpty_eq_false_iff, ne_eq,
    List.map_eq_nil_iff]
  refine ⟨hne, ?_⟩
  rintro _ ⟨c, hc, rfl⟩
  obtain ⟨d, hd⟩ := Option.isSome_iff_exists.mp (h c hc)
  obtain ⟨-, -, -, hlt⟩ := decimal_eq_some hd
  have hdigit : ∀ d < 10, (Nat.digitChar d).isDigit := by decide
  rw [ascii_of_decimal hd]
  exact hdigit d hlt

theorem ofDigitChars_ascii {cs : List Char} (h : ∀ c ∈ cs, (decimal c).isSome) (n : ℕ) :
    Nat.ofDigitChars 10 (cs.map ascii) n = cs.foldl (fun n c => 10 * n + (decimal c).getD 0) n := by
  induction cs generalizing n with
  | nil => rfl
  | cons c cs ih =>
    obtain ⟨d, hd⟩ := Option.isSome_iff_exists.mp (h c List.mem_cons_self)
    obtain ⟨-, -, -, hlt⟩ := decimal_eq_some hd
    rw [List.map_cons, Nat.ofDigitChars_cons, List.foldl_cons, ih fun c hc => h c (List.mem_cons_of_mem _ hc),
      ascii_of_decimal hd, show (Nat.digitChar d).toNat - '0'.toNat = d from Nat.toNat_digitChar_sub_48_of_lt_ten hlt, hd,
      Option.getD_some]

/-- A text in decimal digits of any script is read as the number they write. -/
theorem int_of_decimals {cs : List Char} (hne : cs ≠ []) (h : ∀ c ∈ cs, (decimal c).isSome) :
    int cs = if cs.length ≤ 4300 then some (value cs : ℤ) else none := by
  rw [int, signed_trim_of_digits (digits_of_decimals hne h), List.length_map, ofDigitChars_ascii h, value]

theorem ascii_of_not_decimal {c : Char} (h : isDigit c) (hdecimal : decimal c = none) : ascii c = '?' := by
  have hrange : ∃ r ∈ digitRanges, r.1 ≤ c.toNat ∧ c.toNat ≤ r.2 := by
    simpa [isDigit, hdecimal, List.any_eq_true] using h
  obtain ⟨r, hr, hlow, hhigh⟩ := hrange
  have hascii : ∀ r ∈ digitRanges, 127 ≤ r.1 := by decide
  have hapart : ∀ r ∈ digitRanges, ∀ q ∈ spaceRanges, r.2 < q.1 ∨ q.2 < r.1 := by decide
  have hspace : isSpace c = false := Bool.eq_false_iff.mpr fun hspace => by
    obtain ⟨q, hq, hq'⟩ := isSpace_toNat hspace
    have := hapart r hr q hq
    omega
  have hlarge := hascii r hr
  rw [ascii, if_neg (by omega), hspace, hdecimal]
  rfl

theorem signed_eq_none {cs : List Char} (h : '?' ∈ cs) : signed cs = none := by
  have hmagnitude : ∀ {ds : List Char}, '?' ∈ ds → magnitude ds = none := by
    intro ds hds
    refine if_neg fun hgrouped => ?_
    rcases mem_grouped hgrouped.1 _ hds with hdigit | hunder
    · exact absurd hdigit (by decide)
    · exact absurd hunder (by decide)
  unfold signed
  split
  · rw [hmagnitude ((List.mem_cons.mp h).resolve_left (by decide))]
    rfl
  · rw [hmagnitude ((List.mem_cons.mp h).resolve_left (by decide))]
    rfl
  · rw [hmagnitude h]
    rfl

/-- Digits that are not decimal are not read. -/
theorem int_of_not_decimal {cs : List Char} {c : Char} (hc : c ∈ cs) (h : isDigit c) (hdecimal : decimal c = none) :
    int cs = none :=
  signed_eq_none (mem_trim (List.mem_map.mpr ⟨c, hc, ascii_of_not_decimal h hdecimal⟩) (by decide))

theorem isSome_int_iff {cs : List Char} (h : isdigit cs) :
    (int cs).isSome ↔ (∀ c ∈ cs, (decimal c).isSome) ∧ cs.length ≤ 4300 := by
  simp only [isdigit, Bool.and_eq_true, Bool.not_eq_true', List.isEmpty_eq_false_iff, List.all_eq_true] at h
  by_cases hdecimal : ∀ c ∈ cs, (decimal c).isSome
  · rw [int_of_decimals h.1 hdecimal]
    by_cases hlength : cs.length ≤ 4300
    · simpa [hlength] using hdecimal
    · simp [hlength]
  · have hnone : int cs = none := by
      push Not at hdecimal
      obtain ⟨c, hc, hnone⟩ := hdecimal
      exact int_of_not_decimal hc (h.2 c hc) (by simpa using hnone)
    simp [hnone, hdecimal]

end AutomlApi.Integers
