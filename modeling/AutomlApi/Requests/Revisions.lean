import AutomlApi.Library.Integers
import AutomlApi.Requests.Idempotent

/-! The revisions in headers: what the server reads from `If-Match`, what the client writes
into it, and the event that `Last-Event-ID` names. The published grammar is a numeral in
quotes; `int()` and `str.isdigit()` take more. -/

namespace AutomlApi.Requests

open Integers (int isdigit numeral)
open Scalar (digits)

/-! ### The grammar -/

/-- A text in double quotes, with something between them. -/
def quote (inner : List Char) : List Char := '"' :: (inner ++ ['"'])

/-- `RevisionETag`: the text writes `n`. -/
def RevisionETag (value : List Char) (n : ℤ) : Prop :=
  ∃ inner, numeral inner ∧ value = quote inner ∧ (Nat.ofDigitChars 10 inner 0 : ℤ) = n

theorem quote_injective : Function.Injective quote := fun _ _ h => List.append_cancel_right (List.cons.inj h).2

/-! ### The server -/

def invalidIfMatch (field : String) : APIProblem where
  status := 400
  code := "invalid_if_match"
  title := "Invalid If-Match"
  detail := "If-Match must be a quoted positive integer for " ++ field ++ "."

/-- `parse_revision_etag`. -/
def parseRevisionEtag (value : List Char) (field : String) : Except APIProblem ℤ :=
  if value.length < 3 ∨ value.head? ≠ some '"' ∨ value.getLast? ≠ some '"' then .error (invalidIfMatch field)
  else
    match int (value.drop 1).dropLast with
    | none => .error (invalidIfMatch field)
    | some revision => if revision < 1 then .error (invalidIfMatch field) else .ok revision

theorem unquoted_iff {value : List Char} : ¬ (value.length < 3 ∨ value.head? ≠ some '"' ∨ value.getLast? ≠ some '"') ↔
    ∃ inner, inner ≠ [] ∧ value = quote inner := by
  constructor
  · intro h
    push Not at h
    obtain ⟨hlength, hhead, hlast⟩ := h
    obtain ⟨rest, rfl⟩ := List.head?_eq_some_iff.mp hhead
    have hne : rest ≠ [] := by
      rintro rfl
      simp at hlength
    rw [List.getLast?_cons_of_ne_nil hne] at hlast
    obtain ⟨inner, rfl⟩ := List.getLast?_eq_some_iff.mp hlast
    refine ⟨inner, ?_, rfl⟩
    rintro rfl
    simp at hlength
  · rintro ⟨inner, hne, rfl⟩ (hlength | hhead | hlast)
    · have hpos := List.length_pos_iff.mpr hne
      simp only [quote, List.length_cons, List.length_append, List.length_nil] at hlength
      omega
    · exact hhead rfl
    · exact hlast (by rw [quote, ← List.cons_append, List.getLast?_concat])

theorem inner_quote (inner : List Char) : ((quote inner).drop 1).dropLast = inner := by simp [quote]

theorem parseRevisionEtag_quote {inner : List Char} (hne : inner ≠ []) (field : String) (n : ℤ) :
    parseRevisionEtag (quote inner) field = .ok n ↔ int inner = some n ∧ 1 ≤ n := by
  rw [parseRevisionEtag, if_neg (unquoted_iff.mpr ⟨inner, hne, rfl⟩), inner_quote]
  cases int inner with
  | none => simp
  | some m =>
    by_cases hm : m < 1
    · simp only [hm, if_true, Option.some.injEq, reduceCtorEq, false_iff, not_and]
      rintro rfl
      omega
    · simp only [hm, if_false, Option.some.injEq, Except.ok.injEq]
      constructor
      · rintro rfl
        exact ⟨rfl, not_lt.mp hm⟩
      · exact And.left

theorem parseRevisionEtag_error {value : List Char} {field : String} {e : APIProblem}
    (h : parseRevisionEtag value field = .error e) : e = invalidIfMatch field := by
  unfold parseRevisionEtag at h
  split at h
  · exact (Except.error.inj h).symm
  · split at h
    · exact (Except.error.inj h).symm
    · split at h
      · exact (Except.error.inj h).symm
      · cases h

/-- The server reads a header as the grammar does, and answers the problem else. -/
def ReadExactly (value : List Char) : Prop := ∀ field,
  (∀ n, parseRevisionEtag value field = .ok n ↔ RevisionETag value n) ∧
    ∀ e, parseRevisionEtag value field = .error e → e = invalidIfMatch field

/-- `int()` reads a text as a positive number if and only if it is a numeral. -/
def Plain (inner : List Char) : Prop := (∃ n, int inner = some n ∧ 1 ≤ n) ↔ numeral inner

theorem numeral_ne_nil {inner : List Char} (h : numeral inner) : inner ≠ [] := by
  rintro rfl
  cases h

/-- What is read of a numeral is the number that it writes. -/
theorem int_of_numeral {inner : List Char} (h : numeral inner) {n : ℤ} (hn : int inner = some n) :
    (Nat.ofDigitChars 10 inner 0 : ℤ) = n := by
  rw [Integers.int_of_digits (Integers.digits_of_numeral h)] at hn
  split at hn
  · exact Option.some.inj hn
  · cases hn

theorem readExactly_iff (value : List Char) : ReadExactly value ↔ ∀ inner, value = quote inner → Plain inner := by
  constructor
  · rintro h inner rfl
    obtain ⟨hread, -⟩ := h ""
    constructor
    · rintro ⟨n, hn, hpos⟩
      have hne : inner ≠ [] := by
        rintro rfl
        cases hn
      obtain ⟨inner', hnumeral, heq, -⟩ := (hread n).mp ((parseRevisionEtag_quote hne "" n).mpr ⟨hn, hpos⟩)
      exact quote_injective heq ▸ hnumeral
    · intro hnumeral
      exact ⟨_, (parseRevisionEtag_quote (numeral_ne_nil hnumeral) "" _).mp ((hread _).mpr ⟨inner, hnumeral, rfl, rfl⟩)⟩
  · intro h field
    refine ⟨fun n => ⟨fun hparse => ?_, ?_⟩, fun e => parseRevisionEtag_error⟩
    · by_cases hquoted : value.length < 3 ∨ value.head? ≠ some '"' ∨ value.getLast? ≠ some '"'
      · rw [parseRevisionEtag, if_pos hquoted] at hparse
        cases hparse
      · obtain ⟨inner, hne, rfl⟩ := unquoted_iff.mp hquoted
        obtain ⟨hn, hpos⟩ := (parseRevisionEtag_quote hne field n).mp hparse
        have hnumeral := (h inner rfl).mp ⟨n, hn, hpos⟩
        exact ⟨inner, hnumeral, rfl, int_of_numeral hnumeral hn⟩
    · rintro ⟨inner, hnumeral, rfl, rfl⟩
      obtain ⟨n, hn, hpos⟩ := (h inner rfl).mpr hnumeral
      rw [parseRevisionEtag_quote (numeral_ne_nil hnumeral), int_of_numeral hnumeral hn]
      exact ⟨hn, hpos⟩

/-! ### The client -/

/-- `_REVISION_ETAG.fullmatch(value)`. -/
def fullmatch (value : List Char) : Bool :=
  value.head? = some '"' && value.getLast? = some '"' && numeral (value.drop 1).dropLast

/-- `_revision_etag`, of an integer or of a text; without a result it raises `ValueError`. -/
def revisionEtag : ℤ ⊕ List Char → Option (List Char)
  | .inl revision =>
    if revision < 1 then none
    else
      let value := Nat.toDigits 10 revision.toNat
      -- `str()` of an integer raises where `int()` of its text would
      if value.length ≤ 4300 then some (quote value) else none
  | .inr revision =>
    let value := Integers.strip revision
    if isdigit value then
      match int value with
      | none => none
      | some n => if 0 < n then some (quote value) else none
    else if fullmatch value then some value
    else none

/-- The integer that a revision is: itself, or the one that its text writes, in quotes or not. -/
def Means : ℤ ⊕ List Char → ℤ → Prop
  | .inl revision, n => revision = n
  | .inr revision, n => int (Integers.trim (· = '"') (Integers.strip revision)) = some n

/-- What the client writes for a revision is in the grammar, and the server reads the same
integer from it. -/
def WrittenExactly (revision : ℤ ⊕ List Char) : Prop := ∀ value, revisionEtag revision = some value →
  ∃ n, RevisionETag value n ∧ Means revision n ∧ ∀ field, parseRevisionEtag value field = .ok n

/-- A text names a revision by a numeral that `int()` reads, in quotes or not. -/
def Writable : ℤ ⊕ List Char → Prop
  | .inl _ => True
  | .inr revision =>
    (isdigit (Integers.strip revision) → (∃ n, int (Integers.strip revision) = some n ∧ 1 ≤ n) →
        numeral (Integers.strip revision)) ∧
      ∀ inner, Integers.strip revision = quote inner → numeral inner → inner.length ≤ 4300

theorem fullmatch_iff {value : List Char} : fullmatch value ↔ ∃ inner, numeral inner ∧ value = quote inner := by
  constructor
  · intro h
    simp only [fullmatch, Bool.and_eq_true, decide_eq_true_eq] at h
    obtain ⟨⟨hhead, hlast⟩, hnumeral⟩ := h
    have hne := numeral_ne_nil hnumeral
    have hquoted : ¬ (value.length < 3 ∨ value.head? ≠ some '"' ∨ value.getLast? ≠ some '"') := by
      have hpos := List.length_pos_iff.mpr hne
      rw [List.length_dropLast, List.length_drop] at hpos
      push Not
      exact ⟨by omega, hhead, hlast⟩
    obtain ⟨inner, -, rfl⟩ := unquoted_iff.mp hquoted
    exact ⟨inner, inner_quote inner ▸ hnumeral, rfl⟩
  · rintro ⟨inner, hnumeral, rfl⟩
    have hquoted := unquoted_iff.mpr ⟨inner, numeral_ne_nil hnumeral, rfl⟩
    push Not at hquoted
    rw [fullmatch, inner_quote, hquoted.2.1, hquoted.2.2, hnumeral]
    rfl

theorem int_of_short {inner : List Char} (h : numeral inner) (hlength : inner.length ≤ 4300) :
    int inner = some (Nat.ofDigitChars 10 inner 0 : ℤ) := by
  rw [Integers.int_of_digits (Integers.digits_of_numeral h), if_pos hlength]

/-- A numeral in quotes is in the grammar, and is read back if it is not too long. -/
theorem quote_numeral {inner : List Char} (h : numeral inner) (hlength : inner.length ≤ 4300) :
    RevisionETag (quote inner) (Nat.ofDigitChars 10 inner 0 : ℤ) ∧
      ∀ field, parseRevisionEtag (quote inner) field = .ok (Nat.ofDigitChars 10 inner 0 : ℤ) := by
  refine ⟨⟨inner, h, rfl, rfl⟩, fun field => ?_⟩
  rw [parseRevisionEtag_quote (numeral_ne_nil h)]
  exact ⟨int_of_short h hlength, by exact_mod_cast Integers.numeral_pos h⟩

theorem not_quote_of_digits {inner : List Char} (h : digits inner) : ∀ c ∈ inner, decide (c = '"') = false := by
  intro c hc
  refine decide_eq_false ?_
  rintro rfl
  exact absurd (Integers.mem_digits h _ hc) (by decide)

theorem trim_quote {inner : List Char} (h : digits inner) : Integers.trim (· = '"') (quote inner) = inner :=
  Integers.trim_append (l := ['"']) (r := ['"']) (by simp) (not_quote_of_digits h) (by simp)

theorem not_isdigit_quote (inner : List Char) : isdigit (quote inner) = false := by
  have hquote : Integers.isDigit '"' = false := by decide
  simp [isdigit, quote, hquote]

theorem length_le_of_int {inner : List Char} (h : digits inner) {n : ℤ} (hn : int inner = some n) : inner.length ≤ 4300 := by
  rw [Integers.int_of_digits h] at hn
  split at hn
  · assumption
  · cases hn

/-- An integer that has a text is written in the grammar. -/
theorem writtenExactly_int (revision : ℤ) : WrittenExactly (.inl revision) := by
  intro value h
  simp only [revisionEtag] at h
  split at h
  · cases h
  · next hpos =>
    split at h
    · next hlength =>
      cases h
      have hpos : 0 < revision.toNat := by omega
      have hvalue : (Nat.ofDigitChars 10 (Nat.toDigits 10 revision.toNat) 0 : ℤ) = revision := by
        rw [Nat.ofDigitChars_ten_toDigits]
        omega
      have hquote := quote_numeral (Integers.numeral_toDigits hpos) hlength
      rw [hvalue] at hquote
      exact ⟨revision, hquote.1, rfl, hquote.2⟩
    · cases h

theorem writtenExactly_iff (revision : ℤ ⊕ List Char) : WrittenExactly revision ↔ Writable revision := by
  cases revision with
  | inl revision => exact iff_of_true (writtenExactly_int revision) trivial
  | inr revision =>
    constructor
    · intro h
      refine ⟨fun hdigit ⟨n, hn, hpos⟩ => ?_, fun inner hinner hnumeral => ?_⟩
      · have hetag : revisionEtag (.inr revision) = some (quote (Integers.strip revision)) := by
          have hpos : 0 < n := hpos
          simp [revisionEtag, hdigit, hn, hpos]
        obtain ⟨_, ⟨inner, hnumeral, heq, -⟩, -, -⟩ := h _ hetag
        exact quote_injective heq ▸ hnumeral
      · have hetag : revisionEtag (.inr revision) = some (quote inner) := by
          simp [revisionEtag, hinner, not_isdigit_quote, fullmatch_iff.mpr ⟨inner, hnumeral, rfl⟩]
        obtain ⟨n, -, -, hparse⟩ := h _ hetag
        have hn := ((parseRevisionEtag_quote (numeral_ne_nil hnumeral) "" n).mp (hparse "")).1
        exact length_le_of_int (Integers.digits_of_numeral hnumeral) hn
    · rintro ⟨hdigits, hquoted⟩ value h
      simp only [revisionEtag] at h
      split at h
      · next hdigit =>
        split at h
        · cases h
        · next n hn =>
          split at h
          · next hpos =>
            cases h
            have hnumeral := hdigits hdigit ⟨n, hn, hpos⟩
            have hplain := Integers.digits_of_numeral hnumeral
            have hquote := quote_numeral hnumeral (length_le_of_int hplain hn)
            rw [int_of_numeral hnumeral hn] at hquote
            refine ⟨n, hquote.1, ?_, hquote.2⟩
            rw [Means, Integers.trim_eq_self (not_quote_of_digits hplain), hn]
          · cases h
      · split at h
        · next hmatch =>
          cases h
          obtain ⟨inner, hnumeral, heq⟩ := fullmatch_iff.mp hmatch
          have hlength := hquoted inner heq hnumeral
          have hquote := quote_numeral hnumeral hlength
          rw [heq]
          refine ⟨_, hquote.1, ?_, hquote.2⟩
          rw [Means, heq, trim_quote (Integers.digits_of_numeral hnumeral), int_of_short hnumeral hlength]
        · cases h

/-! ### The event stream -/

def invalidLastEventId : APIProblem where
  status := 400
  code := "invalid_last_event_id"
  title := "Invalid Last-Event-ID"
  detail := "Last-Event-ID must be a non-negative integer."

/-- How the choice of the first event fails: with a problem, or with an error that nothing
handles. -/
inductive Failure where
  | problem (problem : APIProblem)
  | valueError

/-- The choice of `start` in `read_run_events`. -/
def startOf (lastEventId : Option (List Char)) (afterSeq : Option ℤ) (snapshotSeq : ℤ) : Except Failure ℤ :=
  match lastEventId with
  | some lastEventId =>
    if ¬ isdigit lastEventId then .error (.problem invalidLastEventId)
    else
      match int lastEventId with
      | none => .error .valueError
      | some start => .ok start
  | none => .ok (afterSeq.getD snapshotSeq)

/-- The text names an event by the number that its decimal digits write, or is refused. -/
def StartsExactly (lastEventId : List Char) : Prop := ∀ afterSeq snapshotSeq,
  startOf (some lastEventId) afterSeq snapshotSeq = .error (.problem invalidLastEventId) ∨
    (∀ c ∈ lastEventId, (Integers.decimal c).isSome) ∧
      startOf (some lastEventId) afterSeq snapshotSeq = .ok (Integers.value lastEventId)

theorem startsExactly_iff (lastEventId : List Char) : StartsExactly lastEventId ↔
    (isdigit lastEventId → (∀ c ∈ lastEventId, (Integers.decimal c).isSome) ∧ lastEventId.length ≤ 4300) := by
  constructor
  · intro h hdigit
    rw [← Integers.isSome_int_iff hdigit]
    rcases h none 0 with hproblem | ⟨-, hstart⟩
    · simp only [startOf, hdigit, not_true, if_false] at hproblem
      split at hproblem <;> cases hproblem
    · simp only [startOf, hdigit, not_true, if_false] at hstart
      split at hstart
      · cases hstart
      · next n hn => exact hn ▸ rfl
  · intro h afterSeq snapshotSeq
    by_cases hdigit : isdigit lastEventId
    · obtain ⟨hdecimal, hlength⟩ := h hdigit
      have hne : lastEventId ≠ [] := by
        rintro rfl
        cases hdigit
      refine .inr ⟨hdecimal, ?_⟩
      simp only [startOf, hdigit, Integers.int_of_decimals hne hdecimal, hlength, not_true, if_false, if_true]
    · exact .inl (if_pos hdigit)

/-! ### One grammar -/

/-- The three parsers follow the grammar exactly on the texts where `int()` and
`str.isdigit()` do. -/
theorem revision_headers (value : List Char) (revision : ℤ ⊕ List Char) (lastEventId : List Char) :
    (ReadExactly value ↔ ∀ inner, value = quote inner → Plain inner) ∧ (WrittenExactly revision ↔ Writable revision) ∧
      (StartsExactly lastEventId ↔
        (isdigit lastEventId → (∀ c ∈ lastEventId, (Integers.decimal c).isSome) ∧ lastEventId.length ≤ 4300)) :=
  ⟨readExactly_iff value, writtenExactly_iff revision, startsExactly_iff lastEventId⟩

/-- A sign, a numeral of another script, and a digit that is not decimal. -/
theorem revision_headers_differ : ¬ (∀ value, ReadExactly value) ∧ ¬ (∀ revision, WrittenExactly revision) ∧
    ¬ ∀ lastEventId, StartsExactly lastEventId := by
  refine ⟨fun h => ?_, fun h => ?_, fun h => ?_⟩
  · have hplain := (readExactly_iff (quote ['+', '3'])).mp (h _) ['+', '3'] rfl
    exact absurd (hplain.mp ⟨3, by decide, by decide⟩) (by decide)
  · have hnamed := (writtenExactly_iff (.inr ['٣'])).mp (h _)
    exact absurd (hnamed.1 (by decide) ⟨3, by decide, by decide⟩) (by decide)
  · have hstart := (startsExactly_iff ['²']).mp (h _) (by decide)
    exact absurd (hstart.1 '²' List.mem_cons_self) (by decide)

end AutomlApi.Requests
