import Mathlib.Tactic.Common
import AutomlApi.Library.Dict
import AutomlApi.Library.Json

/-! `json.loads`, which reads every value back from the text that `json.dumps` writes. -/

namespace AutomlApi

-- Only the elements of a list are asked, not every character.
attribute [local instance (2000)] List.decidableBAll List.decidableBEx

/-! ### Scalars -/

namespace Scalar

def digits (cs : List Char) : Bool := !cs.isEmpty && cs.all Char.isDigit

/-- Digits with no needless zero before them. -/
def whole (cs : List Char) : Bool := digits cs && (cs.head? ≠ some '0' || cs.length = 1)

def unsigned : List Char → List Char
  | '-' :: cs => cs
  | cs => cs

def exponent : List Char → Bool
  | [] => true
  | 'e' :: '+' :: cs => digits cs
  | 'e' :: '-' :: cs => digits cs
  | 'e' :: cs => digits cs
  | _ => false

def fraction : List Char → Bool
  | '.' :: cs => digits (cs.takeWhile Char.isDigit) && exponent (cs.dropWhile Char.isDigit)
  | cs => exponent cs

/-- The grammar of a float, as its `repr` follows it. -/
def float (cs : List Char) : Bool :=
  whole ((unsigned cs).takeWhile Char.isDigit) && fraction ((unsigned cs).dropWhile Char.isDigit)

def intValue : List Char → ℤ
  | '-' :: cs => -(Nat.ofDigitChars 10 cs 0 : ℤ)
  | cs => (Nat.ofDigitChars 10 cs 0 : ℤ)

def word? (cs : List Char) : Option Word :=
  [Word.null, .true, .false, .nan, .infinity, .negativeInfinity].find? fun w => w.text = cs

/-- The scalar of a text. A float is kept as the text that its `repr` gives. -/
def read (cs : List Char) : Option Scalar :=
  match word? cs with
  | some w => some (.word w)
  | none =>
    if whole (unsigned cs) then some (.int (intValue cs))
    else if h : (∀ c ∈ cs, c.isDigit ∨ c ∈ ['+', '-', '.', 'e']) ∧ ∃ c ∈ cs, c ∈ ['.', 'e'] then
      if float cs then some (.decimal ⟨cs, h.1, h.2⟩) else none
    else none

/-- The text of a float is one that `float` takes. -/
def readable : Scalar → Bool
  | .decimal d => float d.text
  | _ => true

theorem digits_toDigits (n : ℕ) : digits (Nat.toDigits 10 n) := by
  simp only [digits, Bool.and_eq_true, Bool.not_eq_true', List.isEmpty_eq_false_iff, List.all_eq_true]
  exact ⟨Nat.toDigits_ne_nil, fun c hc => isDigit_of_mem_toDigits hc⟩

/-- The digits of a number other than zero start with another digit than zero. -/
theorem head_toDigits {n : ℕ} (hn : 0 < n) : (Nat.toDigits 10 n).head? ≠ some '0' := by
  induction n using Nat.strong_induction_on with
  | _ n ih =>
    by_cases hlt : n < 10
    · have hall : ∀ n < 10, 0 < n → (Nat.toDigits 10 n).head? ≠ some '0' := by decide
      exact hall n hlt hn
    · rw [Nat.toDigits_of_base_le (by decide) (by omega), List.head?_append_of_ne_nil _ Nat.toDigits_ne_nil]
      exact ih (n / 10) (by omega) (by omega)

theorem whole_toDigits (n : ℕ) : whole (Nat.toDigits 10 n) := by
  rw [whole, digits_toDigits, Bool.true_and]
  rcases Nat.eq_zero_or_pos n with rfl | hn
  · rfl
  · simp [head_toDigits hn]

theorem unsigned_toDigits (n : ℕ) : unsigned (Nat.toDigits 10 n) = Nat.toDigits 10 n := by
  unfold unsigned
  split
  · rename_i cs h
    have hdigit := isDigit_of_mem_toDigits (c := '-') (h ▸ List.mem_cons_self)
    exact absurd hdigit (by decide)
  · rfl

theorem intValue_intText (i : ℤ) : intValue (intText i) = i := by
  cases i with
  | ofNat n =>
    have hvalue : intValue (Nat.toDigits 10 n) = Nat.ofDigitChars 10 (Nat.toDigits 10 n) 0 := by
      unfold intValue
      split
      · rename_i cs h
        have hdigit := isDigit_of_mem_toDigits (c := '-') (h ▸ List.mem_cons_self)
        exact absurd hdigit (by decide)
      · rfl
    rw [intText, hvalue, Nat.ofDigitChars_toDigits (by decide) (by decide)]
    rfl
  | negSucc n =>
    rw [intText, intValue, Nat.ofDigitChars_toDigits (by decide) (by decide)]
    rfl

theorem whole_intText (i : ℤ) : whole (unsigned (intText i)) := by
  cases i with
  | ofNat n =>
    rw [intText, unsigned_toDigits]
    exact whole_toDigits n
  | negSucc n => exact whole_toDigits (n + 1)

/-- A numeric text is no name. -/
theorem word?_numeric {cs : List Char} (h : ∀ c ∈ cs, c.isDigit ∨ c ∈ ['+', '-', '.', 'e']) : word? cs = none := by
  refine List.find?_eq_none.mpr fun w _ heq => ?_
  obtain ⟨c, hc, hnamed⟩ := Word.named_text w
  rw [of_decide_eq_true heq] at hc
  rw [not_named (h c hc)] at hnamed
  cases hnamed

/-- A text with a point or an exponent is no integer. -/
theorem not_whole {cs : List Char} (h : ∃ c ∈ cs, c ∈ ['.', 'e']) : whole (unsigned cs) = false := by
  obtain ⟨c, hc, hmarked⟩ := h
  have hne : c ≠ '-' := by
    rintro rfl
    exact absurd hmarked (by decide)
  have hmem : c ∈ unsigned cs := by
    unfold unsigned
    split
    · exact (List.mem_cons.mp hc).resolve_left hne
    · exact hc
  have hdigit : c.isDigit = false := by
    by_contra hdigit
    exact not_marked (.inl (by simpa using hdigit)) hmarked
  rw [whole, digits, List.all_eq_false.mpr ⟨c, hmem, by simp [hdigit]⟩, Bool.and_false, Bool.false_and]

theorem read_text {a : Scalar} (h : a.readable) : read a.text = some a := by
  cases a with
  | word w => cases w <;> rfl
  | int i =>
    rw [text, read, word?_numeric fun c hc => mem_text_int hc]
    dsimp only
    rw [if_pos (whole_intText i), intValue_intText]
  | decimal d =>
    have hfloat : float d.text = true := h
    rw [read, text, word?_numeric d.numeric, not_whole d.marked]
    dsimp only
    rw [if_neg (by decide), dif_pos ⟨d.numeric, d.marked⟩, if_pos hfloat]

/-- The text of a scalar is ASCII. -/
theorem ascii_text {a : Scalar} {c : Char} (h : c ∈ a.text) : c.toNat < 128 := by
  have hnumeric : ∀ {c : Char}, c.isDigit ∨ c ∈ ['+', '-', '.', 'e'] → c.toNat < 128 := by
    rintro c (hc | hc)
    · simp only [Char.isDigit, Bool.and_eq_true, decide_eq_true_eq] at hc
      have : c.toNat ≤ 57 := hc.2
      omega
    · simp only [List.mem_cons, List.not_mem_nil, or_false] at hc
      rcases hc with rfl | rfl | rfl | rfl <;> decide
  cases a with
  | word w =>
    have hall : ∀ w : Word, ∀ c ∈ w.text, c.toNat < 128 := by
      intro w
      cases w <;> decide
    exact hall w c h
  | int i => exact hnumeric (mem_text_int h)
  | decimal d => exact hnumeric (d.numeric c h)

/-- No character of a scalar is a blank. -/
theorem not_blank {a : Scalar} {c : Char} (h : c ∈ a.text) : c ∉ [' ', '\t', '\n', '\r'] := by
  have hnumeric : ∀ {c : Char}, c.isDigit ∨ c ∈ ['+', '-', '.', 'e'] → c ∉ [' ', '\t', '\n', '\r'] := by
    intro c hc hblank
    simp only [List.mem_cons, List.not_mem_nil, or_false] at hblank
    rcases hblank with rfl | rfl | rfl | rfl <;> exact absurd hc (by decide)
  cases a with
  | word w =>
    have hall : ∀ w : Word, ∀ c ∈ w.text, c ∉ [' ', '\t', '\n', '\r'] := by
      intro w
      cases w <;> decide
    exact hall w c h
  | int i => exact hnumeric (mem_text_int h)
  | decimal d => exact hnumeric (d.numeric c h)

end Scalar

/-! ### Strings -/

namespace Quoted

def hex? (c : Char) : Option ℕ :=
  if c.isDigit then some (c.toNat - 48)
  else if 'a' ≤ c ∧ c ≤ 'f' then some (c.toNat - 87)
  else if 'A' ≤ c ∧ c ≤ 'F' then some (c.toNat - 55)
  else none

/-- `_decode_uXXXX`. -/
def unicode? (a b c d : Char) : Option ℕ := do
  let a ← hex? a
  let b ← hex? b
  let c ← hex? c
  let d ← hex? d
  some (((a * 16 + b) * 16 + c) * 16 + d)

/-- `BACKSLASH`. -/
def backslash (d : Char) : Option Char := ((('/', '/') :: short).find? (·.2 = d)).map Prod.fst

/-- `scanstring`, after the opening quote: the string and what follows the closing quote.
A lone surrogate, which is no character, is not read. -/
def scan : List Char → Option (List Char × List Char)
  | [] => none
  | c :: rest =>
    if c = '"' then some ([], rest)
    else if c = '\\' then
      match rest with
      | 'u' :: x :: y :: z :: w :: rest =>
        match unicode? x y z w with
        | none => none
        | some n =>
          if 0xd800 ≤ n ∧ n ≤ 0xdbff then
            match rest with
            | '\\' :: 'u' :: x' :: y' :: z' :: w' :: rest =>
              match unicode? x' y' z' w' with
              | none => none
              | some m =>
                if 0xdc00 ≤ m ∧ m ≤ 0xdfff then
                  (scan rest).map fun p => (Char.ofNat (0x10000 + (n - 0xd800) * 1024 + (m - 0xdc00)) :: p.1, p.2)
                else none
            | _ => none
          else if n.isValidChar then (scan rest).map fun p => (Char.ofNat n :: p.1, p.2)
          else none
      | d :: rest =>
        match backslash d with
        | none => none
        | some c => (scan rest).map fun p => (c :: p.1, p.2)
      | [] => none
    else if c.toNat < 32 then none
    else (scan rest).map fun p => (c :: p.1, p.2)

/-- An escaped character is read back. -/
theorem scan_escape (c : Char) (rest : List Char) :
    scan (escape c ++ rest) = (scan rest).map fun p => (c :: p.1, p.2) := by
  unfold escape
  cases hf : short.find? (·.1 = c) with
  | some p =>
    obtain ⟨rfl, -⟩ := short_find hf
    have hall : ∀ q ∈ short, q.2 ≠ 'u' ∧ backslash q.2 = some q.1 := by decide
    obtain ⟨hu, hback⟩ := hall p (List.mem_of_find?_eq_some hf)
    simp [scan, hback, hu]
  | none =>
    obtain ⟨hquote, hslash⟩ := not_short hf
    dsimp only
    split
    · rename_i hlt
      have hcode : unicode? '0' '0' (hexDigit (c.toNat / 16)) (hexDigit (c.toNat % 16)) = some c.toNat := by
        have hall : ∀ n < 32, unicode? '0' '0' (hexDigit (n / 16)) (hexDigit (n % 16)) = some n := by decide
        exact hall c.toNat hlt
      have hlow : ¬ (0xd800 ≤ c.toNat ∧ c.toNat ≤ 0xdbff) := by omega
      have hvalid : c.toNat.isValidChar := c.valid
      simp [scan, hcode, hlow, hvalid]
    · rename_i hlt
      rw [List.singleton_append, scan.eq_def]
      simp only [if_neg hquote, if_neg hslash, if_neg hlt]

theorem scan_text (s : String) (rest : List Char) :
    scan (s.toList.flatMap escape ++ '"' :: rest) = some (s.toList, rest) := by
  induction s.toList with
  | nil =>
    rw [List.flatMap_nil, List.nil_append, scan.eq_def]
    rfl
  | cons c l ih => rw [List.flatMap_cons, List.append_assoc, scan_escape, ih, Option.map_some]

end Quoted

/-! ### Values -/

namespace Json

open Scalar (delimits)

def blank (c : Char) : Bool := c ∈ [' ', '\t', '\n', '\r']

def skip (cs : List Char) : List Char := cs.dropWhile blank

/-- A character that a scalar goes on with. -/
def plainChar (c : Char) : Bool := !delimits c && !blank c

mutual

/-- `scan_once`, with a bound on its depth. -/
def parseValue : ℕ → List Char → Option (Json × List Char)
  | 0, _ => none
  | n + 1, cs =>
    match cs with
    | '"' :: rest => (Quoted.scan rest).map fun p => (.str (String.ofList p.1), p.2)
    | '[' :: rest =>
      match skip rest with
      | ']' :: rest => some (.list [], rest)
      | rest => (parseItems n rest).map fun p => (.list p.1, p.2)
    | '{' :: rest =>
      match skip rest with
      | '}' :: rest => some (.object [], rest)
      | rest => (parseFields n rest).map fun p => (.object (Dict.update [] p.1), p.2)
    | cs => (Scalar.read (cs.takeWhile plainChar)).map fun a => (.scalar a, cs.dropWhile plainChar)

/-- `JSONArray`, from the first item on. -/
def parseItems : ℕ → List Char → Option (List Json × List Char)
  | 0, _ => none
  | n + 1, cs =>
    match parseValue n cs with
    | none => none
    | some (j, rest) =>
      match skip rest with
      | ']' :: rest => some ([j], rest)
      | ',' :: rest => (parseItems n (skip rest)).map fun p => (j :: p.1, p.2)
      | _ => none

/-- `JSONObject`, from the first key on. -/
def parseFields : ℕ → List Char → Option (List (String × Json) × List Char)
  | n + 1, '"' :: cs =>
    match Quoted.scan cs with
    | none => none
    | some (k, rest) =>
      match skip rest with
      | ':' :: rest =>
        match parseValue n (skip rest) with
        | none => none
        | some (j, rest) =>
          match skip rest with
          | '}' :: rest => some ([(String.ofList k, j)], rest)
          | ',' :: rest => (parseFields n (skip rest)).map fun p => ((String.ofList k, j) :: p.1, p.2)
          | _ => none
      | _ => none
  | _, _ => none

end

/-- `json.loads`. -/
def loads (cs : List Char) : Option Json :=
  match parseValue (2 * cs.length + 1) (skip cs) with
  | none => none
  | some (j, rest) => if skip rest = [] then some j else none

mutual

/-- Every float of the value has a text that `float` takes. -/
def readable : Json → Bool
  | .scalar a => a.readable
  | .str _ => true
  | .list items => readableItems items
  | .object fields => readableFields fields

def readableItems : List Json → Bool
  | [] => true
  | j :: rest => j.readable && readableItems rest

def readableFields : List (String × Json) → Bool
  | [] => true
  | (_, j) :: rest => j.readable && readableFields rest

end

/-- A text starts as one of a value does: not with a blank, nor with the end of a list or
of an object. -/
def Begins (t : List Char) : Prop := ∃ c rest, t = c :: rest ∧ c.toNat < 128 ∧ blank c = false ∧ c ≠ ']' ∧ c ≠ '}'

theorem begins_text (j : Json) (r : List Char) : Begins (j.text ++ r) := by
  cases j with
  | scalar a =>
    rw [text]
    cases ha : a.text with
    | nil => exact absurd ha (Scalar.text_ne_nil a)
    | cons c t =>
      have hc : c ∈ a.text := ha ▸ List.mem_cons_self
      have hdelimits := Scalar.delimits_text hc
      have hblank : blank c = false := by simpa [blank] using Scalar.not_blank hc
      refine ⟨c, t ++ r, rfl, Scalar.ascii_text hc, hblank, ?_, ?_⟩ <;> rintro rfl <;> cases hdelimits
  | str s => exact ⟨'"', _, by rw [text]; rfl, by decide⟩
  | list items =>
    cases items with
    | nil => exact ⟨'[', _, by rw [text]; rfl, by decide⟩
    | cons j items => exact ⟨'[', _, by rw [text]; rfl, by decide⟩
  | object fields =>
    cases fields with
    | nil => exact ⟨'{', _, by rw [text]; rfl, by decide⟩
    | cons p fields => exact ⟨'{', _, by rw [text]; rfl, by decide⟩

theorem begins_key (k : String) (r : List Char) : Begins (Quoted.text k ++ r) := begins_text (.str k) r

theorem Begins.ne_nil {t : List Char} (h : Begins t) : t ≠ [] := by
  obtain ⟨c, rest, rfl, -⟩ := h
  exact List.cons_ne_nil _ _

theorem Begins.skip {t : List Char} (h : Begins t) : skip t = t := by
  obtain ⟨c, rest, rfl, -, hblank, -⟩ := h
  rw [Json.skip, List.dropWhile_cons_of_neg (by simp [hblank])]

theorem parseScalar {a : Scalar} (ha : a.readable) (n : ℕ) {r : List Char} (hr : Ends r) :
    parseValue (n + 1) (a.text ++ r) = some (.scalar a, r) := by
  have hplain : ∀ c ∈ a.text, plainChar c := fun c hc => by
    have hblank : blank c = false := by simpa [blank] using Scalar.not_blank hc
    rw [plainChar, Scalar.delimits_text hc, hblank]
    rfl
  have hstop : r.takeWhile plainChar = [] ∧ r.dropWhile plainChar = r := by
    cases r with
    | nil => exact ⟨rfl, rfl⟩
    | cons c rest =>
      have hc : plainChar c = false := by rw [plainChar, hr c rest rfl]; rfl
      exact ⟨List.takeWhile_cons_of_neg (by simp [hc]), List.dropWhile_cons_of_neg (by simp [hc])⟩
  have hscalar : parseValue (n + 1) (a.text ++ r)
      = (Scalar.read ((a.text ++ r).takeWhile plainChar)).map fun b => (.scalar b, (a.text ++ r).dropWhile plainChar) := by
    cases ha' : a.text with
    | nil => exact absurd ha' (Scalar.text_ne_nil a)
    | cons c t =>
      have hc := Scalar.delimits_text (ha' ▸ List.mem_cons_self (a := c) (l := t))
      rw [List.cons_append, parseValue]
      all_goals
        intro rest h
        cases h
        cases hc
  rw [hscalar, List.takeWhile_append_of_pos hplain, hstop.1, List.append_nil, List.dropWhile_append_of_pos hplain,
    hstop.2, Scalar.read_text ha, Option.map_some]

theorem parseString (s : String) (n : ℕ) (r : List Char) :
    parseValue (n + 1) (Quoted.text s ++ r) = some (.str s, r) := by
  rw [Quoted.text, List.cons_append, parseValue, List.append_assoc, List.singleton_append, Quoted.scan_text,
    Option.map_some, String.ofList_toList]

/-- Behind an opening bracket a list goes on with its first item. -/
theorem parseList (n : ℕ) {t : List Char} (ht : Begins t) :
    parseValue (n + 1) ('[' :: t) = (parseItems n t).map fun p => (.list p.1, p.2) := by
  rw [parseValue, ht.skip]
  obtain ⟨c, rest, rfl, -, -, hclose, -⟩ := ht
  split
  · rename_i heq
    exact absurd (List.cons.inj heq).1 hclose
  · rfl

theorem parseObject (n : ℕ) {t : List Char} (ht : Begins t) :
    parseValue (n + 1) ('{' :: t) = (parseFields n t).map fun p => (.object (Dict.update [] p.1), p.2) := by
  rw [parseValue, ht.skip]
  obtain ⟨c, rest, rfl, -, -, -, hclose⟩ := ht
  split
  · rename_i heq
    exact absurd (List.cons.inj heq).1 hclose
  · rfl

/-- After the text of a key, a field goes on with its value. -/
theorem parseFields_key (k : String) (n : ℕ) {t : List Char} (ht : Begins t) :
    parseFields (n + 1) (Quoted.text k ++ ':' :: t) =
      match parseValue n t with
      | none => none
      | some (j, rest) =>
        match skip rest with
        | '}' :: rest => some ([(k, j)], rest)
        | ',' :: rest => (parseFields n (skip rest)).map fun p => ((k, j) :: p.1, p.2)
        | _ => none := by
  rw [Quoted.text, List.cons_append, parseFields, List.append_assoc, List.singleton_append, Quoted.scan_text]
  dsimp only
  rw [String.ofList_toList, skip, List.dropWhile_cons_of_neg (by decide)]
  show (match parseValue n (skip t) with | none => none | some (j, rest) => _) = _
  rw [ht.skip]

mutual

/-- A value is read from its text, whatever follows. -/
theorem parseValue_text (j : Json) (n : ℕ) (r : List Char) (hj : j.Keyed) (hread : j.readable)
    (hn : j.text.length ≤ n) (hr : Ends r) : parseValue n (j.text ++ r) = some (j, r) := by
  match j, n with
  | j, 0 =>
    have hne := (begins_text j []).ne_nil
    rw [List.append_nil] at hne
    exact absurd (List.length_eq_zero_iff.mp (Nat.le_zero.mp hn)) hne
  | .scalar a, n + 1 =>
    rw [text]
    exact parseScalar hread n hr
  | .str s, n + 1 =>
    rw [text]
    exact parseString s n r
  | .list [], n + 1 =>
    rw [text]
    rfl
  | .list (j :: items), n + 1 =>
    rw [Keyed] at hj
    rw [readable] at hread
    rw [text] at hn ⊢
    rw [List.cons_append, List.append_assoc, parseList n (begins_text j _),
      parseItems_text j items n r hj hread (Nat.le_of_succ_le_succ hn), Option.map_some]
  | .object [], n + 1 =>
    rw [text]
    rfl
  | .object ((k, j) :: fields), n + 1 =>
    rw [Keyed] at hj
    rw [readable] at hread
    have hkeys : Dict.update [] ((k, j) :: fields) = (k, j) :: fields := Dict.update_of_nodup hj.1
    rw [text] at hn ⊢
    rw [List.cons_append, List.append_assoc, parseObject n (begins_key k _), List.cons_append, List.append_assoc,
      parseFields_text k j fields n r hj.2 hread (Nat.le_of_succ_le_succ hn), Option.map_some, hkeys]

theorem parseItems_text (j : Json) (items : List Json) (n : ℕ) (r : List Char) (hj : KeyedItems (j :: items))
    (hread : readableItems (j :: items)) (hn : (j.text ++ textItems items).length ≤ n) :
    parseItems n (j.text ++ (textItems items ++ r)) = some (j :: items, r) := by
  rw [KeyedItems] at hj
  rw [readableItems, Bool.and_eq_true] at hread
  have hlength := hn
  rw [List.length_append] at hlength
  have hclosed : 0 < (textItems items).length := by
    cases items <;> rw [textItems] <;> exact Nat.succ_pos _
  match n with
  | 0 => omega
  | n + 1 =>
    rw [parseItems, parseValue_text j n _ hj.1 hread.1 (by omega) (ends_items items r)]
    dsimp only
    match items with
    | [] => rw [textItems]; rfl
    | k :: items =>
      rw [textItems] at hlength ⊢
      rw [List.cons_append, List.append_assoc, skip, List.dropWhile_cons_of_neg (by decide)]
      show (parseItems n (skip (k.text ++ (textItems items ++ r)))).map _ = _
      rw [(begins_text k _).skip, parseItems_text k items n r hj.2 hread.2 (by rw [List.length_cons] at hlength; omega),
        Option.map_some]

theorem parseFields_text (k : String) (j : Json) (fields : List (String × Json)) (n : ℕ) (r : List Char)
    (hj : KeyedFields ((k, j) :: fields)) (hread : readableFields ((k, j) :: fields))
    (hn : (Quoted.text k ++ ':' :: (j.text ++ textFields fields)).length ≤ n) :
    parseFields n (Quoted.text k ++ ':' :: (j.text ++ (textFields fields ++ r))) = some ((k, j) :: fields, r) := by
  rw [KeyedFields] at hj
  rw [readableFields, Bool.and_eq_true] at hread
  have hlength := hn
  rw [List.length_append, List.length_cons, List.length_append] at hlength
  match n with
  | 0 => omega
  | n + 1 =>
    rw [parseFields_key k n (begins_text j _), parseValue_text j n _ hj.1 hread.1 (by omega) (ends_fields fields r)]
    dsimp only
    match fields with
    | [] => rw [textFields]; rfl
    | (l, i) :: fields =>
      rw [textFields] at hlength ⊢
      rw [List.cons_append, List.append_assoc, List.cons_append, List.append_assoc, skip,
        List.dropWhile_cons_of_neg (by decide)]
      show (parseFields n (skip (Quoted.text l ++ ':' :: (i.text ++ (textFields fields ++ r))))).map _ = _
      rw [(begins_key l _).skip,
        parseFields_text l i fields n r hj.2 hread.2 (by rw [List.length_cons] at hlength; omega), Option.map_some]

end

theorem loads_text {j : Json} (hj : j.Keyed) (hread : j.readable) : loads j.text = some j := by
  have hparse := parseValue_text j (2 * j.text.length + 1) [] hj hread (by omega) ends_nil
  have hskip := (begins_text j []).skip
  rw [List.append_nil] at hparse hskip
  rw [loads, hskip, hparse]
  rfl

end Json

end AutomlApi
