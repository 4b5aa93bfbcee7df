import AutomlApi.Library.Checked
import AutomlApi.Library.Integers
import AutomlApi.Requests.Idempotent

/-! Range requests on the bytes of an artifact. The header is read with `int()`, which takes
more than the digits of its grammar, and does not take all of them; the bytes of the
interval that is read are sent piece by piece. -/

namespace AutomlApi.Requests

open Integers (int)
open Scalar (digits)

/-! ### The header -/

def bytesUnit : List Char := "bytes=".toList

def invalidRange (detail : String) : APIProblem where
  status := 416
  code := "invalid_range"
  title := "Invalid Range"
  detail := detail

def rangeNotSatisfiable (size : ℕ) : APIProblem where
  status := 416
  code := "range_not_satisfiable"
  title := "Range not satisfiable"
  detail := "The requested range is outside the artifact."
  extras := [("content_range", .str ("bytes */" ++ toString size))]

/-- The numbers of `_parse_byte_range`; without a result one of them raises `ValueError`. -/
def boundsOf (startText endText : List Char) (size : ℕ) : Option (ℤ × ℤ) :=
  if startText ≠ [] then
    (int startText).bind fun start =>
      if endText ≠ [] then (int endText).map fun last => (start, last) else some (start, size - 1)
  else (int endText).bind fun suffix => if suffix ≤ 0 then none else some (max 0 (size - suffix), size - 1)

/-- `_parse_byte_range`. -/
def parseByteRange (value : Option (List Char)) (size : ℕ) : Except APIProblem (Option (ℤ × ℤ)) :=
  match value with
  | none => .ok none
  | some value =>
    if ¬ bytesUnit.isPrefixOf value ∨ ',' ∈ value then .error (invalidRange "Only one byte range is supported.")
    else
      let spec := value.drop bytesUnit.length
      let startText := spec.takeWhile (· ≠ '-')
      let endText := (spec.dropWhile (· ≠ '-')).drop 1
      if '-' ∉ spec ∨ startText = [] ∧ endText = [] then .error (invalidRange "The byte range is malformed.")
      else
        match boundsOf startText endText size with
        | none => .error (invalidRange "The byte range is malformed.")
        | some (start, last) =>
          if start < 0 ∨ last < start ∨ size ≤ start then .error (rangeNotSatisfiable size)
          else .ok (some (start, min last (size - 1)))

/-! ### The grammar -/

/-- The number of a text in ASCII digits. -/
def asciiNumber (cs : List Char) : Option ℤ := if digits cs then some (Nat.ofDigitChars 10 cs 0 : ℤ) else none

/-- The interval from `start` to `last` of an object is the one of the range `a-b`, `a-` or
`-b`, with its numbers read by `read`. -/
def Ranged (read : List Char → Option ℤ) (a b : List Char) (size : ℕ) (start last : ℤ) : Prop :=
  (a ≠ [] ∧ b ≠ [] ∧ ∃ e, read a = some start ∧ read b = some e ∧ 0 ≤ start ∧ start ≤ e ∧ start < size ∧
      last = min e (size - 1)) ∨
    (a ≠ [] ∧ b = [] ∧ read a = some start ∧ 0 ≤ start ∧ start < size ∧ last = size - 1) ∨
      (a = [] ∧ ∃ n, read b = some n ∧ 0 < n ∧ 0 < size ∧ start = max 0 (size - n) ∧ last = size - 1)

/-- The header writes a single range around its first hyphen. -/
def Spec (value a b : List Char) : Prop := value = bytesUnit ++ (a ++ '-' :: b) ∧ '-' ∉ a ∧ ',' ∉ value

/-- The header is accepted as the grammar says, and refused with 416 else. -/
def ParsedExactly (value : List Char) (size : ℕ) : Prop :=
  (∀ start last, parseByteRange (some value) size = .ok (some (start, last)) ↔
      ∃ a b, Spec value a b ∧ Ranged asciiNumber a b size start last) ∧
    parseByteRange (some value) size ≠ .ok none ∧
      ∀ problem, parseByteRange (some value) size = .error problem → problem.status = 416

/-- A satisfiable range that `int()` reads has nothing but ASCII digits around its hyphen, no
sign, space or underscore, and a satisfiable one of the grammar has no number of more than
4300 digits. -/
def Legible (value : List Char) (size : ℕ) : Prop := ∀ a b, Spec value a b →
  (∀ start last, Ranged int a b size start last → ∀ c ∈ a ++ b, c.isDigit) ∧
    ∀ start last, Ranged asciiNumber a b size start last → a.length ≤ 4300 ∧ b.length ≤ 4300

/-- The numbers that pass the checks are those of the range as `int()` reads it. -/
theorem boundsOf_iff {a b : List Char} {size : ℕ} {start last : ℤ} :
    (∃ e, boundsOf a b size = some (start, e) ∧ ¬ (start < 0 ∨ e < start ∨ size ≤ start) ∧ last = min e (size - 1)) ↔
      Ranged int a b size start last := by
  unfold boundsOf Ranged
  by_cases ha : a = []
  · subst ha
    simp only [ne_eq, not_true, if_false, false_and, true_and, false_or, Option.bind_eq_some_iff]
    constructor
    · rintro ⟨e, ⟨n, hn, hbounds⟩, hchecks, rfl⟩
      split at hbounds
      · cases hbounds
      · cases hbounds
        exact ⟨n, hn, by omega⟩
    · rintro ⟨n, hn, hpos, hsize, rfl, rfl⟩
      exact ⟨size - 1, ⟨n, hn, if_neg (by omega)⟩, by omega⟩
  · by_cases hb : b = []
    · subst hb
      simp only [ha, ne_eq, not_false_eq_true, not_true, if_true, if_false, false_and, and_false, true_and, false_or, or_false,
        Option.bind_eq_some_iff]
      constructor
      · rintro ⟨e, ⟨n, hn, hbounds⟩, hchecks, rfl⟩
        cases hbounds
        exact ⟨hn, by omega⟩
      · rintro ⟨hstart, hle, hlt, rfl⟩
        exact ⟨size - 1, ⟨start, hstart, rfl⟩, by omega⟩
    · simp only [ha, hb, ne_eq, not_false_eq_true, if_true, false_and, and_false, true_and, or_false,
        Option.bind_eq_some_iff, Option.map_eq_some_iff]
      constructor
      · rintro ⟨e, ⟨n, hn, m, hm, hbounds⟩, hchecks, rfl⟩
        cases hbounds
        exact ⟨e, hn, hm, by omega⟩
      · rintro ⟨e, hstart, he, hle, hlast, hlt, rfl⟩
        exact ⟨e, ⟨start, hstart, e, he, rfl⟩, by omega⟩

theorem not_ranged_nil {read : List Char → Option ℤ} (hread : read [] = none) {size : ℕ} {start last : ℤ} :
    ¬ Ranged read [] [] size start last := by
  rintro (⟨hne, -⟩ | ⟨hne, -⟩ | ⟨-, n, hn, -⟩)
  · exact hne rfl
  · exact hne rfl
  · rw [hread] at hn
    cases hn

/-- A text around its first hyphen. -/
theorem split_hyphen {spec a b : List Char} : spec = a ++ '-' :: b ∧ '-' ∉ a ↔
    '-' ∈ spec ∧ a = spec.takeWhile (· ≠ '-') ∧ b = (spec.dropWhile (· ≠ '-')).drop 1 := by
  induction spec generalizing a with
  | nil => simp
  | cons c spec ih =>
    by_cases hc : c = '-'
    · subst hc
      cases a with
      | nil => simp [eq_comm]
      | cons d a =>
        refine iff_of_false ?_ ?_
        · rintro ⟨hspec, ha⟩
          exact ha ((List.cons.inj hspec).1 ▸ List.mem_cons_self)
        · rintro ⟨-, htake, -⟩
          simp at htake
    · cases a with
      | nil => simp [hc]
      | cons d a =>
        have hstep := ih (a := a)
        simp only [List.cons_append, List.cons.injEq, List.mem_cons, not_or, List.takeWhile_cons, List.dropWhile_cons, hc,
          ne_eq, not_false_eq_true, decide_true, if_true, Ne.symm hc, false_or]
        constructor
        · rintro ⟨⟨rfl, hspec⟩, -, ha⟩
          obtain ⟨hmem, htake, hdrop⟩ := hstep.mp ⟨hspec, ha⟩
          exact ⟨hmem, ⟨rfl, htake⟩, hdrop⟩
        · rintro ⟨hmem, ⟨rfl, htake⟩, hdrop⟩
          obtain ⟨hspec, ha⟩ := hstep.mpr ⟨hmem, htake, hdrop⟩
          exact ⟨⟨rfl, hspec⟩, Ne.symm hc, ha⟩

theorem spec_iff {value a b : List Char} : Spec value a b ↔
    (bytesUnit.isPrefixOf value ∧ ',' ∉ value) ∧ '-' ∈ value.drop bytesUnit.length ∧
      a = (value.drop bytesUnit.length).takeWhile (· ≠ '-') ∧
        b = ((value.drop bytesUnit.length).dropWhile (· ≠ '-')).drop 1 := by
  rw [← split_hyphen, Spec, List.isPrefixOf_iff_prefix]
  constructor
  · rintro ⟨rfl, ha, hcomma⟩
    exact ⟨⟨List.prefix_append .., hcomma⟩, List.drop_left, ha⟩
  · rintro ⟨⟨⟨rest, rfl⟩, hcomma⟩, hspec, ha⟩
    rw [List.drop_left] at hspec
    exact ⟨hspec ▸ rfl, ha, hcomma⟩

/-- What the header is read as. -/
theorem parseByteRange_eq_ok {value : List Char} {size : ℕ} {range : Option (ℤ × ℤ)} :
    parseByteRange (some value) size = .ok range ↔
      ∃ a b start last, Spec value a b ∧ Ranged int a b size start last ∧ range = some (start, last) := by
  simp only [parseByteRange]
  constructor
  · intro h
    split at h
    · cases h
    next hunit =>
    split at h
    · cases h
    next hspec =>
    push Not at hunit hspec
    split at h
    · cases h
    · next start e hbounds =>
      split at h
      · cases h
      · next hchecks =>
        exact ⟨_, _, start, _, spec_iff.mpr ⟨hunit, hspec.1, rfl, rfl⟩, boundsOf_iff.mp ⟨e, hbounds, hchecks, rfl⟩,
          (Except.ok.inj h).symm⟩
  · rintro ⟨a, b, start, last, hspec, hranged, rfl⟩
    obtain ⟨hunit, hhyphen, rfl, rfl⟩ := spec_iff.mp hspec
    have hne : ¬ ((value.drop bytesUnit.length).takeWhile (· ≠ '-') = [] ∧
        ((value.drop bytesUnit.length).dropWhile (· ≠ '-')).drop 1 = []) := by
      rintro ⟨ha, hb⟩
      rw [ha, hb] at hranged
      exact not_ranged_nil rfl hranged
    obtain ⟨e, hbounds, hchecks, rfl⟩ := boundsOf_iff.mpr hranged
    rw [if_neg (by simpa using hunit), if_neg (by simpa [hhyphen] using hne), hbounds]
    exact if_neg hchecks

theorem parseByteRange_error {value : List Char} {size : ℕ} {problem : APIProblem}
    (h : parseByteRange (some value) size = .error problem) : problem.status = 416 := by
  simp only [parseByteRange] at h
  split at h
  · cases h
    rfl
  split at h
  · cases h
    rfl
  split at h
  · cases h
    rfl
  split at h
  · cases h
    rfl
  · cases h

/-- A header has one range. -/
theorem spec_unique {value a b a' b' : List Char} (h : Spec value a b) (h' : Spec value a' b') : a = a' ∧ b = b' := by
  obtain ⟨-, -, rfl, rfl⟩ := spec_iff.mp h
  obtain ⟨-, -, rfl, rfl⟩ := spec_iff.mp h'
  exact ⟨rfl, rfl⟩

theorem asciiNumber_isSome {cs : List Char} {n : ℤ} (h : asciiNumber cs = some n) : digits cs := by
  unfold asciiNumber at h
  split at h
  · assumption
  · cases h

theorem ranged_digits {a b : List Char} {size : ℕ} {start last : ℤ} (h : Ranged asciiNumber a b size start last) :
    ∀ c ∈ a ++ b, c.isDigit := by
  have hmem : ∀ {cs : List Char} {n : ℤ}, asciiNumber cs = some n → ∀ c ∈ cs, c.isDigit := fun hn =>
    Integers.mem_digits (asciiNumber_isSome hn)
  refine List.forall_mem_append.mpr ?_
  rcases h with ⟨-, -, e, hstart, he, -⟩ | ⟨-, rfl, hstart, -⟩ | ⟨rfl, n, hn, -⟩
  · exact ⟨hmem hstart, hmem he⟩
  · exact ⟨hmem hstart, by simp⟩
  · exact ⟨by simp, hmem hn⟩

/-- `int()` reads up to 4300 ASCII digits. -/
theorem int_eq_asciiNumber {cs : List Char} (h : ∀ c ∈ cs, c.isDigit) :
    int cs = if cs.length ≤ 4300 then asciiNumber cs else none := by
  cases cs with
  | nil => rfl
  | cons c cs =>
    have hdigits : digits (c :: cs) := by
      simp only [digits, Bool.and_eq_true, List.all_eq_true]
      exact ⟨rfl, h⟩
    rw [Integers.int_of_digits hdigits, asciiNumber, if_pos hdigits]

theorem int_length {cs : List Char} {n : ℤ} (h : ∀ c ∈ cs, c.isDigit) (hn : int cs = some n) :
    int cs = asciiNumber cs ∧ cs.length ≤ 4300 := by
  rw [int_eq_asciiNumber h] at hn ⊢
  split at hn
  · next hle => exact ⟨if_pos hle, hle⟩
  · cases hn

theorem ranged_int {a b : List Char} {size : ℕ} {start last : ℤ} (h : ∀ c ∈ a ++ b, c.isDigit)
    (hranged : Ranged int a b size start last) :
    Ranged asciiNumber a b size start last ∧ a.length ≤ 4300 ∧ b.length ≤ 4300 := by
  obtain ⟨ha, hb⟩ := List.forall_mem_append.mp h
  rcases hranged with ⟨hne, hne', e, hstart, he, hrest⟩ | ⟨hne, rfl, hstart, hrest⟩ | ⟨rfl, n, hn, hrest⟩
  · obtain ⟨heq, hlen⟩ := int_length ha hstart
    obtain ⟨heq', hlen'⟩ := int_length hb he
    exact ⟨.inl ⟨hne, hne', e, heq ▸ hstart, heq' ▸ he, hrest⟩, hlen, hlen'⟩
  · obtain ⟨heq, hlen⟩ := int_length ha hstart
    exact ⟨.inr (.inl ⟨hne, rfl, heq ▸ hstart, hrest⟩), hlen, by simp⟩
  · obtain ⟨heq, hlen⟩ := int_length hb hn
    exact ⟨.inr (.inr ⟨rfl, n, heq ▸ hn, hrest⟩), by simp, hlen⟩

theorem ranged_ascii {a b : List Char} {size : ℕ} {start last : ℤ} (ha : a.length ≤ 4300) (hb : b.length ≤ 4300)
    (hranged : Ranged asciiNumber a b size start last) : Ranged int a b size start last := by
  obtain ⟨hda, hdb⟩ := List.forall_mem_append.mp (ranged_digits hranged)
  have ha := (int_eq_asciiNumber hda).trans (if_pos ha)
  have hb := (int_eq_asciiNumber hdb).trans (if_pos hb)
  unfold Ranged
  rw [ha, hb]
  exact hranged

theorem parsedExactly_iff (value : List Char) (size : ℕ) : ParsedExactly value size ↔ Legible value size := by
  constructor
  · rintro ⟨hparse, -, -⟩ a b hspec
    constructor
    · intro start last hranged
      obtain ⟨a', b', hspec', hranged'⟩ :=
        (hparse start last).mp (parseByteRange_eq_ok.mpr ⟨a, b, start, last, hspec, hranged, rfl⟩)
      obtain ⟨rfl, rfl⟩ := spec_unique hspec hspec'
      exact ranged_digits hranged'
    · intro start last hranged
      obtain ⟨a', b', start', last', hspec', hranged', -⟩ :=
        parseByteRange_eq_ok.mp ((hparse start last).mpr ⟨a, b, hspec, hranged⟩)
      obtain ⟨rfl, rfl⟩ := spec_unique hspec hspec'
      exact (ranged_int (ranged_digits hranged) hranged').2
  · intro h
    refine ⟨fun start last => ⟨fun hparse => ?_, ?_⟩, fun hnone => ?_, fun problem => parseByteRange_error⟩
    · obtain ⟨a, b, _, _, hspec, hranged, heq⟩ := parseByteRange_eq_ok.mp hparse
      cases heq
      exact ⟨a, b, hspec, (ranged_int ((h a b hspec).1 start last hranged) hranged).1⟩
    · rintro ⟨a, b, hspec, hranged⟩
      obtain ⟨ha, hb⟩ := (h a b hspec).2 start last hranged
      exact parseByteRange_eq_ok.mpr ⟨a, b, start, last, hspec, ranged_ascii ha hb hranged, rfl⟩
    · obtain ⟨_, _, _, _, -, -, heq⟩ := parseByteRange_eq_ok.mp hnone
      cases heq

/-! ### The bytes -/

/-- An artifact, as the response names it. -/
structure Artifact where
  sizeBytes : ℕ
  etag : String
  sha256 : String
  mediaType : String

structure StreamingResponse where
  statusCode : ℕ
  mediaType : String
  headers : List (String × String)
  body : List (List UInt8)

/-- The loop of `body`: pieces of what is left of the file, until as many bytes are sent as
are asked for, or the file ends. -/
def pieces (rest : List UInt8) (remaining : ℕ) : List (List UInt8) :=
  let chunk := rest.take (min (1024 * 1024) remaining)
  if remaining = 0 ∨ chunk = [] then []
  else chunk :: pieces (rest.drop chunk.length) (remaining - chunk.length)
termination_by remaining
decreasing_by
  next h =>
  push Not at h
  exact Nat.sub_lt (Nat.pos_of_ne_zero h.1) (List.length_pos_iff.mpr h.2)

/-- The response of `download_artifact_bytes`, for the file of the artifact. -/
def downloadArtifactBytes (artifact : Artifact) (file : List UInt8) (rangeHeader : Option (List Char)) :
    Except APIProblem StreamingResponse :=
  (parseByteRange rangeHeader artifact.sizeBytes).map fun selected =>
    let (start, last) := selected.getD (0, artifact.sizeBytes - 1)
    let length := last - start + 1
    { statusCode := if selected.isSome then 206 else 200
      mediaType := artifact.mediaType
      headers := [("Accept-Ranges", "bytes"), ("Content-Length", toString length), ("ETag", artifact.etag),
        ("X-Content-SHA256", artifact.sha256)] ++
          if selected.isSome then
            [("Content-Range", "bytes " ++ toString start ++ "-" ++ toString last ++ "/" ++ toString artifact.sizeBytes)]
          else []
      body := pieces (file.drop start.toNat) length.toNat }

theorem flatten_pieces (rest : List UInt8) (remaining : ℕ) : (pieces rest remaining).flatten = rest.take remaining := by
  induction rest, remaining using pieces.induct with
  | case1 rest remaining chunk h =>
    rw [pieces, if_pos h, List.flatten_nil]
    rcases h with rfl | h
    · rfl
    · rcases List.take_eq_nil_iff.mp h with hzero | hrest
      · rw [show remaining = 0 by omega, List.take_zero]
      · rw [hrest, List.take_nil]
  | case2 rest remaining chunk h ih =>
    rw [pieces, if_neg h, List.flatten_cons, ih]
    by_cases hshort : min (1024 * 1024) remaining ≤ rest.length
    · have hlength : chunk.length = min (1024 * 1024) remaining := by rw [List.length_take, min_eq_left hshort]
      have hsum : remaining = chunk.length + (remaining - chunk.length) := by omega
      conv_rhs => rw [hsum, List.take_add]
      rw [hlength]
    · have hall : chunk = rest := List.take_of_length_le (by omega)
      have hrest : rest.take remaining = rest := List.take_of_length_le (by omega)
      rw [hall, List.drop_length, List.take_nil, List.append_nil, hrest]
      exact hall

/-- The bytes from `start` to `last`. -/
def bytesOf (file : List UInt8) (start last : ℤ) : List UInt8 := (file.take (last + 1).toNat).drop start.toNat

/-- The answer to a request without a range, or with the given one, has the bytes of the
interval, and the headers that tell so. -/
def ServedExactly (value : List Char) (size : ℕ) : Prop := ∀ (artifact : Artifact) (file : List UInt8) range response,
  artifact.sizeBytes = size → file.length = size → range = none ∨ range = some value →
    downloadArtifactBytes artifact file range = .ok response → ∃ selected, parseByteRange range size = .ok selected ∧
      response.body.flatten = bytesOf file (selected.getD (0, size - 1)).1 (selected.getD (0, size - 1)).2 ∧
      ("Content-Length", toString response.body.flatten.length) ∈ response.headers ∧
      (selected = none → response.body.flatten = file ∧ ∀ text, ("Content-Range", text) ∉ response.headers) ∧
      ∀ start last, selected = some (start, last) → ("Content-Range",
        "bytes " ++ toString start ++ "-" ++ toString last ++ "/" ++ toString size) ∈ response.headers

/-- An interval that is selected lies in the object; without one it is the whole. -/
theorem selected_bounds {range : Option (List Char)} {size : ℕ} {selected : Option (ℤ × ℤ)}
    (h : parseByteRange range size = .ok selected) :
    0 ≤ (selected.getD (0, (size : ℤ) - 1)).1 ∧
      (selected.getD (0, (size : ℤ) - 1)).1 ≤ (selected.getD (0, (size : ℤ) - 1)).2 + 1 ∧
        (selected.getD (0, (size : ℤ) - 1)).2 < size := by
  cases range with
  | none =>
    cases h
    show (0 : ℤ) ≤ 0 ∧ (0 : ℤ) ≤ size - 1 + 1 ∧ (size : ℤ) - 1 < size
    omega
  | some value =>
    obtain ⟨a, b, start, last, -, hranged, rfl⟩ := parseByteRange_eq_ok.mp h
    show 0 ≤ start ∧ start ≤ last + 1 ∧ last < size
    rcases hranged with ⟨-, -, e, -, -, hle, hlast, hlt, rfl⟩ | ⟨-, -, -, hle, hlt, rfl⟩ | ⟨-, n, -, hpos, hsize, rfl, rfl⟩
    · omega
    · omega
    · omega

theorem servedExactly (value : List Char) (size : ℕ) : ServedExactly value size := by
  rintro artifact file range response rfl hsize - h
  obtain ⟨selected, hselected, rfl⟩ := except_map_eq_ok h
  refine ⟨selected, hselected, ?_⟩
  obtain ⟨hstart, hle, hlast⟩ := selected_bounds hselected
  generalize hinterval : selected.getD (0, (artifact.sizeBytes : ℤ) - 1) = interval at hstart hle hlast ⊢
  obtain ⟨start, last⟩ := interval
  have hbody : (pieces (file.drop start.toNat) (last - start + 1).toNat).flatten = bytesOf file start last := by
    rw [flatten_pieces, bytesOf, List.drop_take]
    congr 1
    dsimp only at hstart hle
    omega
  have hlength : ((bytesOf file start last).length : ℤ) = last - start + 1 := by
    dsimp only at hstart hle hlast
    rw [bytesOf, List.length_drop, List.length_take]
    omega
  have htext : toString (last - start + 1) = toString (bytesOf file start last).length := by
    rw [← hlength]
    rfl
  refine ⟨hbody, ?_, fun hnone => ⟨?_, fun text => ?_⟩, fun start' last' hsome => ?_⟩
  · rw [hbody, ← htext]
    simp
  · subst hnone
    cases hinterval
    rw [hbody, bytesOf, Int.toNat_zero, List.drop_zero]
    exact List.take_of_length_le (by omega)
  · subst hnone
    simp
  · subst hsome
    cases hinterval
    simp

/-- A header is parsed and served exactly if and only if no satisfiable range in it has other
characters than digits, or too many of them. -/
theorem range_exact_iff (value : List Char) (size : ℕ) :
    (ParsedExactly value size ∧ ServedExactly value size) ↔ Legible value size :=
  (and_iff_left (servedExactly value size)).trans (parsedExactly_iff value size)

/-- A sign before a number is accepted. -/
theorem range_not_exact : ¬ ∀ value size, ParsedExactly value size ∧ ServedExactly value size := fun h => by
  have hlegible := (range_exact_iff "bytes=+1-2".toList 5).mp (h _ _) ['+', '1'] ['2']
    ⟨by decide, by decide, by decide⟩
  have hread : Ranged int ['+', '1'] ['2'] 5 1 2 := .inl ⟨List.cons_ne_nil _ _, List.cons_ne_nil _ _, 2, by decide⟩
  exact absurd (hlegible.1 1 2 hread '+' (by simp)) (by decide)

end AutomlApi.Requests
