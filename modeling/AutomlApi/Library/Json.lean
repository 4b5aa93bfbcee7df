import Mathlib.Data.Int.Notation
import Mathlib.Data.List.Perm.Subperm
import Mathlib.Data.List.Nodup
import Mathlib.Data.String.Basic

/-! JSON texts as `json.dumps` writes them with sorted keys and without blanks. Two
values have the same text exactly if they are the same up to the order of keys. -/

namespace AutomlApi

-- Only the elements of a list are asked, not every character.
attribute [local instance (2000)] List.decidableBAll List.decidableBEx

/-- The `repr` of a finite float. -/
structure Decimal where
  text : List Char
  numeric : ∀ c ∈ text, c.isDigit ∨ c ∈ ['+', '-', '.', 'e']
  marked : ∃ c ∈ text, c ∈ ['.', 'e']

theorem Decimal.ext_text {d d' : Decimal} (h : d.text = d'.text) : d = d' := by
  cases d; cases d'; cases h; rfl

/-- The names of JSON, and those that Python adds to them. -/
inductive Word where
  | null | true | false | nan | infinity | negativeInfinity
  deriving DecidableEq

def Word.text : Word → List Char
  | null => ['n', 'u', 'l', 'l']
  | true => ['t', 'r', 'u', 'e']
  | false => ['f', 'a', 'l', 's', 'e']
  | nan => ['N', 'a', 'N']
  | infinity => ['I', 'n', 'f', 'i', 'n', 'i', 't', 'y']
  | negativeInfinity => ['-', 'I', 'n', 'f', 'i', 'n', 'i', 't', 'y']

inductive Scalar where
  | word (w : Word)
  | int (i : ℤ)
  | decimal (d : Decimal)

inductive Json where
  | scalar (a : Scalar)
  | str (s : String)
  | list (items : List Json)
  | object (fields : List (String × Json))

namespace Json

def null : Json := .scalar (.word .null)

def bool (b : Bool) : Json := .scalar (.word (if b then .true else .false))

def int (i : ℤ) : Json := .scalar (.int i)

def decimal (d : Decimal) : Json := .scalar (.decimal d)

/-- A value, or `null`. -/
def option {α : Type} (f : α → Json) : Option α → Json
  | some a => f a
  | none => null

end Json

/-! ### Scalars -/

namespace Scalar

def intText : ℤ → List Char
  | .ofNat n => Nat.toDigits 10 n
  | .negSucc n => '-' :: Nat.toDigits 10 (n + 1)

def text : Scalar → List Char
  | word w => w.text
  | int i => intText i
  | decimal d => d.text

/-- The characters that end a scalar. -/
def delimits (c : Char) : Bool := c ∈ [',', ':', ']', '}', '[', '{', '"']

theorem toDigits_inj {m n : ℕ} (h : Nat.toDigits 10 m = Nat.toDigits 10 n) : m = n := by
  have hm := Nat.ofDigitChars_toDigits (b := 10) (n := m) (by decide) (by decide)
  rw [h, Nat.ofDigitChars_toDigits (by decide) (by decide)] at hm
  exact hm.symm

theorem isDigit_of_mem_toDigits {n : ℕ} {c : Char} (h : c ∈ Nat.toDigits 10 n) : c.isDigit :=
  Nat.isDigit_of_mem_toDigits (by decide) (by decide) h

theorem mem_intText {i : ℤ} {c : Char} (h : c ∈ intText i) : c.isDigit ∨ c = '-' := by
  cases i with
  | ofNat n => exact .inl (isDigit_of_mem_toDigits h)
  | negSucc n =>
    rcases List.mem_cons.mp h with rfl | h
    · exact .inr rfl
    · exact .inl (isDigit_of_mem_toDigits h)

theorem intText_inj {i j : ℤ} (h : intText i = intText j) : i = j := by
  have hmixed : ∀ {m : ℕ} {l : List Char}, Nat.toDigits 10 m ≠ '-' :: l := by
    intro m l h
    have := isDigit_of_mem_toDigits (c := '-') (h ▸ List.mem_cons_self)
    exact absurd this (by decide)
  cases i with
  | ofNat m =>
    cases j with
    | ofNat n => exact congrArg Int.ofNat (toDigits_inj h)
    | negSucc n => exact absurd h hmixed
  | negSucc m =>
    cases j with
    | ofNat n => exact absurd h.symm hmixed
    | negSucc n =>
      have := toDigits_inj (List.cons.inj h).2
      rw [show m = n by omega]

/-- A letter that only names have. -/
def named (c : Char) : Bool := c ∈ ['n', 't', 'f', 'N', 'I']

theorem Word.named_text (w : Word) : ∃ c ∈ w.text, named c := by
  cases w <;> decide

theorem not_named {c : Char} (h : c.isDigit ∨ c ∈ ['+', '-', '.', 'e']) : named c = false := by
  rcases h with h | h
  · cases hc : named c with
    | false => rfl
    | true =>
      have : c = 'n' ∨ c = 't' ∨ c = 'f' ∨ c = 'N' ∨ c = 'I' := by simpa [named] using hc
      rcases this with rfl | rfl | rfl | rfl | rfl <;> exact absurd h (by decide)
  · simp only [List.mem_cons, List.not_mem_nil, or_false] at h
    rcases h with rfl | rfl | rfl | rfl <;> rfl

theorem not_marked {c : Char} (h : c.isDigit ∨ c = '-') : c ∉ ['.', 'e'] := by
  intro hc
  simp only [List.mem_cons, List.not_mem_nil, or_false] at hc
  rcases hc with rfl | rfl <;> exact absurd h (by decide)

theorem mem_text_int {i : ℤ} {c : Char} (h : c ∈ intText i) : c.isDigit ∨ c ∈ ['+', '-', '.', 'e'] :=
  (mem_intText h).imp_right fun hc => by simp [hc]

/-- The text tells which scalar it is of. -/
theorem text_inj {a b : Scalar} (h : a.text = b.text) : a = b := by
  -- a text with a letter of its own is a name, one with a point or an exponent a decimal
  have hname : ∀ {w : Word} {l : List Char}, w.text = l → (∀ c ∈ l, c.isDigit ∨ c ∈ ['+', '-', '.', 'e']) → False := by
    intro w l hw hl
    obtain ⟨c, hc, hn⟩ := Word.named_text w
    rw [not_named (hl c (hw ▸ hc))] at hn
    cases hn
  have hmark : ∀ {i : ℤ} {d : Decimal}, intText i = d.text → False := by
    intro i d hd
    obtain ⟨c, hc, hm⟩ := d.marked
    exact not_marked (mem_intText (hd ▸ hc)) hm
  cases a with
  | word w =>
    cases b with
    | word v => rw [show w = v by revert h; cases w <;> cases v <;> decide]
    | int j => exact (hname h fun _ => mem_text_int).elim
    | decimal d => exact (hname h d.numeric).elim
  | int i =>
    cases b with
    | word v => exact (hname h.symm fun _ => mem_text_int).elim
    | int j => rw [intText_inj h]
    | decimal d => exact (hmark h).elim
  | decimal d =>
    cases b with
    | word v => exact (hname h.symm d.numeric).elim
    | int j => exact (hmark h.symm).elim
    | decimal d' => rw [Decimal.ext_text h]

theorem not_delimits {c : Char} (h : c.isDigit ∨ c ∈ ['+', '-', '.', 'e']) : delimits c = false := by
  rcases h with h | h
  · cases hc : delimits c with
    | false => rfl
    | true =>
      have : c = ',' ∨ c = ':' ∨ c = ']' ∨ c = '}' ∨ c = '[' ∨ c = '{' ∨ c = '"' := by simpa [delimits] using hc
      rcases this with rfl | rfl | rfl | rfl | rfl | rfl | rfl <;> exact absurd h (by decide)
  · simp only [List.mem_cons, List.not_mem_nil, or_false] at h
    rcases h with rfl | rfl | rfl | rfl <;> rfl

theorem delimits_text {a : Scalar} {c : Char} (h : c ∈ a.text) : delimits c = false := by
  cases a with
  | word w =>
    have hall : ∀ w : Word, ∀ c ∈ w.text, delimits c = false := by
      intro w
      cases w <;> decide
    exact hall w c h
  | int i => exact not_delimits (mem_text_int h)
  | decimal d => exact not_delimits (d.numeric c h)

theorem text_ne_nil (a : Scalar) : a.text ≠ [] := by
  cases a with
  | word w => cases w <;> exact List.cons_ne_nil _ _
  | int i =>
    cases i with
    | ofNat n => exact Nat.toDigits_ne_nil
    | negSucc n => exact List.cons_ne_nil _ _
  | decimal d =>
    obtain ⟨c, hc, -⟩ := d.marked
    exact List.ne_nil_of_mem hc

end Scalar

/-! ### Strings -/

namespace Quoted

def hexDigit (n : ℕ) : Char := if n < 10 then Char.ofNat (48 + n) else Char.ofNat (87 + n)

def hexValue (c : Char) : ℕ := if c.toNat < 58 then c.toNat - 48 else c.toNat - 87

/-- The character that stands for another one after a backslash. -/
def short : List (Char × Char) :=
  [('"', '"'), ('\\', '\\'), ('\n', 'n'), ('\r', 'r'), ('\t', 't'), ('\x08', 'b'), ('\x0c', 'f')]

/-- `ESCAPE_DCT`, with the other control characters by their code. -/
def escape (c : Char) : List Char :=
  match short.find? (·.1 = c) with
  | some p => ['\\', p.2]
  | none =>
    if c.toNat < 32 then ['\\', 'u', '0', '0', hexDigit (c.toNat / 16), hexDigit (c.toNat % 16)] else [c]

/-- The character at the head of an escaped string, and what follows it; nothing at the
closing quote. -/
def unescape : List Char → Option (Char × List Char)
  | [] => none
  | c :: rest =>
    if c = '"' then none
    else if c = '\\' then
      match rest with
      | [] => none
      | d :: rest =>
        match short.find? (·.2 = d) with
        | some p => some (p.1, rest)
        | none => some (Char.ofNat (16 * hexValue (rest.getD 2 '0') + hexValue (rest.getD 3 '0')), rest.drop 4)
    else some (c, rest)

theorem short_find {c : Char} {p : Char × Char} (h : short.find? (·.1 = c) = some p) :
    p.1 = c ∧ short.find? (·.2 = p.2) = some p := by
  have hall : ∀ q ∈ short, short.find? (·.2 = q.2) = some q := by decide
  exact ⟨by simpa using List.find?_some h, hall p (List.mem_of_find?_eq_some h)⟩

theorem not_short {c : Char} (h : short.find? (·.1 = c) = none) : c ≠ '"' ∧ c ≠ '\\' := by
  constructor <;> rintro rfl <;> cases h

theorem hex_toNat {c : Char} (h : c.toNat < 32) :
    Char.ofNat (16 * hexValue (hexDigit (c.toNat / 16)) + hexValue (hexDigit (c.toNat % 16))) = c := by
  have hall : ∀ n < 32, 16 * hexValue (hexDigit (n / 16)) + hexValue (hexDigit (n % 16)) = n := by decide
  rw [hall c.toNat h, Char.ofNat_toNat]

theorem unescape_escape (c : Char) (rest : List Char) : unescape (escape c ++ rest) = some (c, rest) := by
  unfold escape
  cases hf : short.find? (·.1 = c) with
  | some p =>
    obtain ⟨hc, hback⟩ := short_find hf
    simp [unescape, hback, hc]
  | none =>
    obtain ⟨hquote, hslash⟩ := not_short hf
    dsimp only
    split
    · rename_i hlt
      have hu : short.find? (fun p => decide (p.2 = 'u')) = none := by decide
      simp [unescape, hu, hex_toNat hlt]
    · simp [unescape, hquote, hslash]

def text (s : String) : List Char := '"' :: (s.toList.flatMap escape ++ ['"'])

theorem flatMap_escape_inj {s t : List Char} {r u : List Char}
    (h : s.flatMap escape ++ '"' :: r = t.flatMap escape ++ '"' :: u) : s = t ∧ r = u := by
  have hend : ∀ {c : Char} {l r : List Char}, '"' :: r ≠ escape c ++ l := by
    intro c l r h
    have := unescape_escape c l
    rw [← h] at this
    cases this
  induction s generalizing t with
  | nil =>
    cases t with
    | nil => exact ⟨rfl, (List.cons.inj h).2⟩
    | cons d t =>
      rw [List.flatMap_cons, List.append_assoc] at h
      exact absurd h hend
  | cons c s ih =>
    rw [List.flatMap_cons, List.append_assoc] at h
    cases t with
    | nil => exact absurd h.symm hend
    | cons d t =>
      rw [List.flatMap_cons, List.append_assoc] at h
      have heads := congrArg unescape h
      rw [unescape_escape, unescape_escape] at heads
      obtain ⟨rfl, hrest⟩ := Prod.mk.inj (Option.some.inj heads)
      obtain ⟨rfl, hr⟩ := ih hrest
      exact ⟨rfl, hr⟩

theorem text_append_inj {s t : String} {r u : List Char} (h : text s ++ r = text t ++ u) : s = t ∧ r = u := by
  simp only [text, List.cons_append, List.append_assoc, List.nil_append] at h
  obtain ⟨hs, hr⟩ := flatMap_escape_inj (List.cons.inj h).2
  exact ⟨String.toList_injective hs, hr⟩

end Quoted

/-! ### Values -/

namespace Json

open Scalar (delimits)

mutual

def text : Json → List Char
  | .scalar a => a.text
  | .str s => Quoted.text s
  | .list [] => ['[', ']']
  | .list (j :: rest) => '[' :: (j.text ++ textItems rest)
  | .object [] => ['{', '}']
  | .object ((k, j) :: rest) => '{' :: (Quoted.text k ++ ':' :: (j.text ++ textFields rest))

/-- The items after the first one, and the end of the list. -/
def textItems : List Json → List Char
  | [] => [']']
  | j :: rest => ',' :: (j.text ++ textItems rest)

/-- The fields after the first one, and the end of the object. -/
def textFields : List (String × Json) → List Char
  | [] => ['}']
  | (k, j) :: rest => ',' :: (Quoted.text k ++ ':' :: (j.text ++ textFields rest))

end

/-- What comes after a value: nothing, or a character that ends it. -/
def Ends (r : List Char) : Prop := ∀ c rest, r = c :: rest → delimits c

theorem ends_nil : Ends [] := by
  intro c rest h
  cases h

theorem ends_items (items : List Json) (r : List Char) : Ends (textItems items ++ r) := by
  intro c rest h
  cases items with
  | nil => rw [textItems] at h; cases h; rfl
  | cons j items => rw [textItems] at h; cases h; rfl

theorem ends_fields (fields : List (String × Json)) (r : List Char) : Ends (textFields fields ++ r) := by
  intro c rest h
  cases fields with
  | nil => rw [textFields] at h; cases h; rfl
  | cons p fields => rw [textFields] at h; cases h; rfl

/-- Two texts that no delimiter interrupts, each before one or at the end. -/
theorem uninterrupted {t u r s : List Char} (ht : ∀ c ∈ t, delimits c = false) (hu : ∀ c ∈ u, delimits c = false)
    (hr : Ends r) (hs : Ends s) (h : t ++ r = u ++ s) : t = u ∧ r = s := by
  induction t generalizing u with
  | nil =>
    cases u with
    | nil => exact ⟨rfl, h⟩
    | cons c u =>
      have := hr c (u ++ s) h
      rw [hu c List.mem_cons_self] at this
      cases this
  | cons c t ih =>
    cases u with
    | nil =>
      have := hs c (t ++ r) h.symm
      rw [ht c List.mem_cons_self] at this
      cases this
    | cons d u =>
      obtain ⟨rfl, htail⟩ := List.cons.inj h
      obtain ⟨rfl, hrest⟩ := ih (fun c hc => ht c (List.mem_cons_of_mem _ hc))
        (fun c hc => hu c (List.mem_cons_of_mem _ hc)) htail
      exact ⟨rfl, hrest⟩

/-- What the first character of a text tells. -/
inductive Shape where
  | scalar | string | list | object | closing
  deriving DecidableEq

def shapeOf : List Char → Shape
  | [] => .closing
  | c :: _ =>
    if c = '"' then .string else if c = '[' then .list else if c = '{' then .object
    else if delimits c then .closing else .scalar

def shape : Json → Shape
  | .scalar _ => .scalar
  | .str _ => .string
  | .list _ => .list
  | .object _ => .object

theorem shapeOf_text (j : Json) (r : List Char) : shapeOf (j.text ++ r) = j.shape := by
  cases j with
  | scalar a =>
    rw [text]
    cases ha : a.text with
    | nil => exact absurd ha (Scalar.text_ne_nil a)
    | cons c t =>
      have hc : delimits c = false := Scalar.delimits_text (ha ▸ List.mem_cons_self)
      have hne : c ≠ '"' ∧ c ≠ '[' ∧ c ≠ '{' := by
        refine ⟨?_, ?_, ?_⟩ <;> rintro rfl <;> cases hc
      simp [shapeOf, hne, hc, shape]
  | str s => rw [text]; rfl
  | list items =>
    cases items with
    | nil => rw [text]; rfl
    | cons j items => rw [text]; rfl
  | object fields =>
    cases fields with
    | nil => rw [text]; rfl
    | cons p fields => rw [text]; rfl

theorem shape_eq {a b : Json} {r s : List Char} (h : a.text ++ r = b.text ++ s) : a.shape = b.shape := by
  rw [← shapeOf_text a r, h, shapeOf_text]

theorem text_ne_closing {a : Json} {c : Char} {r s : List Char} (hc : shapeOf (c :: s) = .closing) :
    a.text ++ r ≠ c :: s := by
  intro h
  have := shapeOf_text a r
  rw [h, hc] at this
  cases a <;> cases this

mutual

/-- A value is read back from its text, whatever follows. -/
theorem text_append_inj (a b : Json) (r s : List Char) (hr : Ends r) (hs : Ends s) (h : a.text ++ r = b.text ++ s) :
    a = b ∧ r = s := by
  match a, b, shape_eq h with
  | .scalar a, .scalar b, _ =>
    rw [text, text] at h
    obtain ⟨ht, hrest⟩ := uninterrupted (fun _ => Scalar.delimits_text) (fun _ => Scalar.delimits_text) hr hs h
    exact ⟨by rw [Scalar.text_inj ht], hrest⟩
  | .str t, .str u, _ =>
    rw [text, text] at h
    obtain ⟨rfl, hrest⟩ := Quoted.text_append_inj h
    exact ⟨rfl, hrest⟩
  | .list [], .list [], _ =>
    rw [text] at h
    exact ⟨rfl, by simpa using h⟩
  | .list [], .list (b :: bs), _ =>
    simp only [text, List.cons_append, List.append_assoc] at h
    exact absurd (List.cons.inj h).2.symm (text_ne_closing rfl)
  | .list (a :: as), .list [], _ =>
    simp only [text, List.cons_append, List.append_assoc] at h
    exact absurd (List.cons.inj h).2 (text_ne_closing rfl)
  | .list (a :: as), .list (b :: bs), _ =>
    rw [text, text, List.cons_append, List.cons_append, List.append_assoc, List.append_assoc] at h
    obtain ⟨rfl, hitems⟩ := text_append_inj a b _ _ (ends_items as r) (ends_items bs s) (List.cons.inj h).2
    obtain ⟨rfl, hrest⟩ := textItems_append_inj as bs r s hitems
    exact ⟨rfl, hrest⟩
  | .object [], .object [], _ =>
    rw [text] at h
    exact ⟨rfl, by simpa using h⟩
  | .object [], .object ((_, _) :: _), _ => rw [text, text] at h; cases h
  | .object ((_, _) :: _), .object [], _ => rw [text, text] at h; cases h
  | .object ((k, a) :: fs), .object ((l, b) :: gs), _ =>
    simp only [text, List.cons_append, List.append_assoc] at h
    obtain ⟨rfl, hvalues⟩ := Quoted.text_append_inj (List.cons.inj h).2
    obtain ⟨rfl, hfields⟩ := text_append_inj a b _ _ (ends_fields fs r) (ends_fields gs s) (List.cons.inj hvalues).2
    obtain ⟨rfl, hrest⟩ := textFields_append_inj fs gs r s hfields
    exact ⟨rfl, hrest⟩

theorem textItems_append_inj (as bs : List Json) (r s : List Char) (h : textItems as ++ r = textItems bs ++ s) :
    as = bs ∧ r = s := by
  match as, bs with
  | [], [] =>
    rw [textItems] at h
    exact ⟨rfl, by simpa using h⟩
  | [], _ :: _ => rw [textItems, textItems] at h; cases h
  | _ :: _, [] => rw [textItems, textItems] at h; cases h
  | a :: as, b :: bs =>
    rw [textItems, textItems, List.cons_append, List.cons_append, List.append_assoc, List.append_assoc] at h
    obtain ⟨rfl, hitems⟩ := text_append_inj a b _ _ (ends_items as r) (ends_items bs s) (List.cons.inj h).2
    obtain ⟨rfl, hrest⟩ := textItems_append_inj as bs r s hitems
    exact ⟨rfl, hrest⟩

theorem textFields_append_inj (fs gs : List (String × Json)) (r s : List Char)
    (h : textFields fs ++ r = textFields gs ++ s) : fs = gs ∧ r = s := by
  match fs, gs with
  | [], [] =>
    rw [textFields] at h
    exact ⟨rfl, by simpa using h⟩
  | [], (_, _) :: _ => rw [textFields, textFields] at h; cases h
  | (_, _) :: _, [] => rw [textFields, textFields] at h; cases h
  | (k, a) :: fs, (l, b) :: gs =>
    simp only [textFields, List.cons_append, List.append_assoc] at h
    obtain ⟨rfl, hvalues⟩ := Quoted.text_append_inj (List.cons.inj h).2
    obtain ⟨rfl, hfields⟩ := text_append_inj a b _ _ (ends_fields fs r) (ends_fields gs s) (List.cons.inj hvalues).2
    obtain ⟨rfl, hrest⟩ := textFields_append_inj fs gs r s hfields
    exact ⟨rfl, hrest⟩

end

theorem text_inj {a b : Json} (h : a.text = b.text) : a = b :=
  (text_append_inj a b [] [] ends_nil ends_nil (by rw [h])).1

/-! ### The order of keys -/

def sortKeys (fields : List (String × Json)) : List (String × Json) :=
  fields.mergeSort fun p q => p.1 ≤ q.1

mutual

/-- The value with the keys of its objects in their order. -/
def sorted : Json → Json
  | .list items => .list (sortedItems items)
  | .object fields => .object (sortKeys (sortedFields fields))
  | .scalar a => .scalar a
  | .str s => .str s

def sortedItems : List Json → List Json
  | [] => []
  | j :: rest => j.sorted :: sortedItems rest

def sortedFields : List (String × Json) → List (String × Json)
  | [] => []
  | (k, j) :: rest => (k, j.sorted) :: sortedFields rest

end

/-- `json.dumps` with `sort_keys`. -/
def dumps (j : Json) : String := String.ofList j.sorted.text

mutual

/-- No object has a key twice. -/
def Keyed : Json → Prop
  | .list items => KeyedItems items
  | .object fields => (fields.map Prod.fst).Nodup ∧ KeyedFields fields
  | .scalar _ | .str _ => True

def KeyedItems : List Json → Prop
  | [] => True
  | j :: rest => j.Keyed ∧ KeyedItems rest

def KeyedFields : List (String × Json) → Prop
  | [] => True
  | (_, j) :: rest => j.Keyed ∧ KeyedFields rest

end

mutual

/-- The same value, where the keys of objects have no order. -/
def Same : Json → Json → Prop
  | .scalar a, .scalar b => a = b
  | .str s, .str t => s = t
  | .list as, .list bs => SameItems as bs
  | .object fs, .object gs => fs.length = gs.length ∧ SameFields fs gs
  | _, _ => False

def SameItems : List Json → List Json → Prop
  | [], [] => True
  | a :: as, b :: bs => Same a b ∧ SameItems as bs
  | _, _ => False

/-- Every field on the left is there on the right. -/
def SameFields : List (String × Json) → List (String × Json) → Prop
  | [], _ => True
  | (k, a) :: fs, gs => (∃ b, (k, b) ∈ gs ∧ Same a b) ∧ SameFields fs gs

end

theorem sortedFields_eq (fields : List (String × Json)) :
    sortedFields fields = fields.map fun p => (p.1, p.2.sorted) := by
  induction fields with
  | nil => rw [sortedFields]; rfl
  | cons p fields ih => rw [sortedFields, ih]; rfl

theorem keyedFields_iff {fields : List (String × Json)} : KeyedFields fields ↔ ∀ p ∈ fields, p.2.Keyed := by
  induction fields with
  | nil => simp [KeyedFields]
  | cons p fields ih => simp [KeyedFields, ih]

theorem sortKeys_perm (fields : List (String × Json)) : (sortKeys fields).Perm fields := List.mergeSort_perm _ _

theorem sortKeys_pairwise (fields : List (String × Json)) : (sortKeys fields).Pairwise fun p q => p.1 ≤ q.1 := by
  have h : (sortKeys fields).Pairwise fun p q => decide (p.1 ≤ q.1) = true := by
    refine List.pairwise_mergeSort ?_ ?_ fields
    · intro p q r hpq hqr
      have hpq : p.1 ≤ q.1 := by simpa using hpq
      have hqr : q.1 ≤ r.1 := by simpa using hqr
      simpa using le_trans hpq hqr
    · intro p q
      simpa using le_total p.1 q.1
  simpa using h

/-- Two lists of fields without a repeated key are sorted alike exactly if they have the
same fields. -/
theorem sortKeys_eq_iff {fs gs : List (String × Json)} (hf : (fs.map Prod.fst).Nodup) :
    sortKeys fs = sortKeys gs ↔ fs.Perm gs := by
  constructor
  · intro h
    exact (sortKeys_perm fs).symm.trans (h ▸ sortKeys_perm gs)
  · intro h
    have hperm : (sortKeys fs).Perm (sortKeys gs) := (sortKeys_perm fs).trans (h.trans (sortKeys_perm gs).symm)
    refine hperm.eq_of_pairwise ?_ (sortKeys_pairwise fs) (sortKeys_pairwise gs)
    intro p q hp hq hpq hqp
    have hp : p ∈ fs := (sortKeys_perm fs).mem_iff.mp hp
    have hq : q ∈ fs := h.mem_iff.mpr ((sortKeys_perm gs).mem_iff.mp hq)
    exact List.inj_on_of_nodup_map hf hp hq (le_antisymm hpq hqp)

theorem sorted_fields_iff {fs gs : List (String × Json)} (hf : (fs.map Prod.fst).Nodup) :
    sortKeys (sortedFields fs) = sortKeys (sortedFields gs) ↔
      fs.length = gs.length ∧ ∀ p ∈ fs, ∃ b, (p.1, b) ∈ gs ∧ p.2.sorted = b.sorted := by
  have hkeys (hs : List (String × Json)) : (sortedFields hs).map Prod.fst = hs.map Prod.fst := by
    rw [sortedFields_eq, List.map_map]
    rfl
  rw [sortKeys_eq_iff (by rw [hkeys]; exact hf)]
  constructor
  · intro h
    refine ⟨by simpa [sortedFields_eq] using h.length_eq, fun p hp => ?_⟩
    have hmem : (p.1, p.2.sorted) ∈ sortedFields gs := by
      rw [← h.mem_iff, sortedFields_eq]
      exact List.mem_map_of_mem hp
    rw [sortedFields_eq] at hmem
    obtain ⟨q, hq, heq⟩ := List.mem_map.mp hmem
    obtain ⟨hkey, hvalue⟩ := Prod.mk.inj heq
    exact ⟨q.2, by rw [← hkey]; exact hq, hvalue.symm⟩
  · rintro ⟨hlength, hall⟩
    have hnodup : (sortedFields fs).Nodup := List.Nodup.of_map Prod.fst (by rw [hkeys]; exact hf)
    have hsub : sortedFields fs ⊆ sortedFields gs := by
      intro p hp
      rw [sortedFields_eq] at hp ⊢
      obtain ⟨q, hq, rfl⟩ := List.mem_map.mp hp
      obtain ⟨b, hb, heq⟩ := hall q hq
      rw [heq]
      exact List.mem_map_of_mem (f := fun p : String × Json => (p.1, p.2.sorted)) hb
    refine (List.subperm_of_subset hnodup hsub).perm_of_length_le ?_
    simp [sortedFields_eq, hlength]

mutual

/-- Sorting the keys makes two values equal exactly if they are the same up to that. -/
theorem sorted_eq_iff (a b : Json) (ha : a.Keyed) (hb : b.Keyed) : a.sorted = b.sorted ↔ a.Same b := by
  match a, b with
  | .scalar a, .scalar b => simp [sorted, Same]
  | .str s, .str t => simp [sorted, Same]
  | .list as, .list bs =>
    rw [Keyed] at ha hb
    simp only [sorted, Same, list.injEq]
    exact sortedItems_eq_iff as bs ha hb
  | .object fs, .object gs =>
    rw [Keyed] at ha hb
    simp only [sorted, Same, object.injEq]
    rw [sorted_fields_iff ha.1, sameFields_iff fs gs ha.2 (keyedFields_iff.mp hb.2)]
  | .scalar _, .str _ | .scalar _, .list _ | .scalar _, .object _ => simp [sorted, Same]
  | .str _, .scalar _ | .str _, .list _ | .str _, .object _ => simp [sorted, Same]
  | .list _, .scalar _ | .list _, .str _ | .list _, .object _ => simp [sorted, Same]
  | .object _, .scalar _ | .object _, .str _ | .object _, .list _ => simp [sorted, Same]

theorem sortedItems_eq_iff (as bs : List Json) (ha : KeyedItems as) (hb : KeyedItems bs) :
    sortedItems as = sortedItems bs ↔ SameItems as bs := by
  match as, bs with
  | [], [] => simp [sortedItems, SameItems]
  | [], _ :: _ => simp [sortedItems, SameItems]
  | _ :: _, [] => simp [sortedItems, SameItems]
  | a :: as, b :: bs =>
    rw [KeyedItems] at ha hb
    simp only [sortedItems, SameItems, List.cons.injEq]
    rw [sorted_eq_iff a b ha.1 hb.1, sortedItems_eq_iff as bs ha.2 hb.2]

theorem sameFields_iff (fs gs : List (String × Json)) (hf : KeyedFields fs) (hg : ∀ p ∈ gs, p.2.Keyed) :
    SameFields fs gs ↔ ∀ p ∈ fs, ∃ b, (p.1, b) ∈ gs ∧ p.2.sorted = b.sorted := by
  match fs with
  | [] => simp [SameFields]
  | (k, a) :: fs =>
    rw [KeyedFields] at hf
    simp only [SameFields, List.forall_mem_cons]
    rw [sameFields_iff fs gs hf.2 hg]
    refine and_congr_left' (exists_congr fun b => and_congr_right fun hmem => ?_)
    exact (sorted_eq_iff a b hf.1 (hg _ hmem)).symm

end

theorem dumps_eq_iff {a b : Json} (ha : a.Keyed) (hb : b.Keyed) : a.dumps = b.dumps ↔ a.Same b := by
  rw [← sorted_eq_iff a b ha hb]
  constructor
  · intro h
    have htext := congrArg String.toList h
    simp only [dumps, String.toList_ofList] at htext
    exact text_inj htext
  · intro h
    rw [dumps, dumps, h]

/-! ### Encodings -/

theorem sameFields_iff_forall {fs gs : List (String × Json)} :
    SameFields fs gs ↔ ∀ p ∈ fs, ∃ b, (p.1, b) ∈ gs ∧ p.2.Same b := by
  induction fs with
  | nil => simp [SameFields]
  | cons p fs ih => simp [SameFields, ih]

/-- Objects with the same keys in the same places are the same if their values are. -/
theorem same_object {fs gs : List (String × Json)} (hkeys : fs.map Prod.fst = gs.map Prod.fst)
    (hnodup : (fs.map Prod.fst).Nodup) :
    (object fs).Same (object gs) ↔ SameItems (fs.map Prod.snd) (gs.map Prod.snd) := by
  have hlength : fs.length = gs.length := by simpa using congrArg List.length hkeys
  rw [Same, sameFields_iff_forall, and_iff_right hlength]
  clear hlength
  induction fs generalizing gs with
  | nil =>
    cases gs with
    | nil => simp [SameItems]
    | cons q gs => cases hkeys
  | cons p fs ih =>
    cases gs with
    | nil => cases hkeys
    | cons q gs =>
      obtain ⟨hkey, hkeys⟩ := List.cons.inj hkeys
      obtain ⟨hfresh, hnodup⟩ := List.nodup_cons.mp hnodup
      simp only [List.map_cons, SameItems, List.forall_mem_cons, ← ih hkeys hnodup]
      refine and_congr ?_ (forall₂_congr fun r hr => exists_congr fun b => and_congr_left fun _ => ?_)
      · -- the key of the first field is the key of no other one
        constructor
        · rintro ⟨b, hb, hsame⟩
          rcases List.mem_cons.mp hb with heq | hb
          · rw [← heq]
            exact hsame
          · exact absurd (hkeys ▸ List.mem_map.mpr ⟨_, hb, rfl⟩) hfresh
        · intro hsame
          exact ⟨q.2, by rw [hkey]; exact List.mem_cons_self, hsame⟩
      · rw [List.mem_cons, or_iff_right]
        intro heq
        refine hfresh ?_
        rw [hkey, ← heq]
        exact List.mem_map.mpr ⟨r, hr, rfl⟩

theorem keys_of_same {fs gs : List (String × Json)} (h : (object fs).Same (object gs)) :
    fs.length = gs.length ∧ ∀ k ∈ fs.map Prod.fst, k ∈ gs.map Prod.fst := by
  rw [Same, sameFields_iff_forall] at h
  refine ⟨h.1, fun k hk => ?_⟩
  obtain ⟨p, hp, rfl⟩ := List.mem_map.mp hk
  obtain ⟨b, hb, -⟩ := h.2 p hp
  exact List.mem_map.mpr ⟨_, hb, rfl⟩

/-- An encoding that tells all values apart. -/
def Faithful {α : Type} (f : α → Json) : Prop := ∀ a b, (f a).Same (f b) ↔ a = b

theorem faithful_str : Faithful str := fun s t => by simp [Same]

theorem faithful_int : Faithful int := fun i j => by simp [int, Same]

theorem faithful_bool : Faithful bool := by
  intro a b
  cases a <;> cases b <;> simp [bool, Same]

variable {α β : Type} {f : α → Json}

theorem Faithful.comp (hf : Faithful f) {g : β → α} (hg : ∀ b b', g b = g b' → b = b') : Faithful (f ∘ g) := by
  intro b b'
  rw [Function.comp_apply, Function.comp_apply, hf]
  exact ⟨hg b b', congrArg g⟩

/-- No value is encoded as `null`. -/
def Solid (f : α → Json) : Prop := ∀ a, ¬ (f a).Same null ∧ ¬ null.Same (f a)

theorem solid_str : Solid str := fun s => by simp [null, Same]

theorem solid_int : Solid int := fun i => by simp [int, null, Same]

theorem solid_bool : Solid bool := by
  intro b
  cases b <;> simp [bool, null, Same]

theorem Solid.comp (hf : Solid f) (g : β → α) : Solid (f ∘ g) := fun b => hf (g b)

theorem Faithful.option (hf : Faithful f) (hnull : Solid f) : Faithful (option f) := by
  intro a b
  cases a with
  | none =>
    cases b with
    | none => simp [Json.option, null, Same]
    | some b => simpa [Json.option] using (hnull b).2
  | some a =>
    cases b with
    | none => simpa [Json.option] using (hnull a).1
    | some b => simpa [Json.option] using hf a b

theorem sameItems_map (hf : Faithful f) (l m : List α) : SameItems (l.map f) (m.map f) ↔ l = m := by
  induction l generalizing m with
  | nil => cases m <;> simp [SameItems]
  | cons a l ih =>
    cases m with
    | nil => simp [SameItems]
    | cons b m => simp [SameItems, hf a b, ih]

theorem Faithful.list (hf : Faithful f) : Faithful fun l : List α => Json.list (l.map f) := by
  intro l m
  rw [Same]
  exact sameItems_map hf l m

theorem keyed_option (h : ∀ a, (f a).Keyed) (o : Option α) : (option f o).Keyed := by
  cases o with
  | none => simp [Json.option, null, Keyed]
  | some a => exact h a

theorem keyedItems_map (h : ∀ a, (f a).Keyed) (l : List α) : KeyedItems (l.map f) := by
  induction l with
  | nil => simp [KeyedItems]
  | cons a l ih => exact ⟨h a, ih⟩

theorem keyed_str (s : String) : (str s).Keyed := by simp [Keyed]

theorem keyed_int (i : ℤ) : (int i).Keyed := by simp [int, Keyed]

theorem keyed_bool (b : Bool) : (bool b).Keyed := by simp [bool, Keyed]

end Json

end AutomlApi
