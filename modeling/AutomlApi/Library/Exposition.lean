import Mathlib.Algebra.BigOperators.Group.List.Basic
import Mathlib.Algebra.GroupWithZero.Nat
import Mathlib.Data.List.Basic
import Mathlib.Data.List.TakeWhile

/-! The text format of Prometheus: a reader of it, and a writer that puts label values into
the text as they are. The reader gives back what was written exactly if no label value has a
character that the format asks to escape. -/

namespace AutomlApi.Exposition

-- Only the elements of a list are asked, not every character.
attribute [local instance (2000)] List.decidableBAll List.decidableBEx

abbrev Text := List Char

/-! ### Lines -/

structure Sample where
  name : Text
  labels : List (Text × Text)
  value : Text
  timestamp : Option Text
  deriving DecidableEq

inductive Line where
  | help (name doc : Text)
  | type (name kind : Text)
  | comment (text : Text)
  | sample (s : Sample)
  deriving DecidableEq

/-! ### The reader -/

def blank (c : Char) : Bool := c = ' ' || c = '\t'

def skip (cs : Text) : Text := cs.dropWhile blank

/-- The next word, and what follows it. -/
def word (cs : Text) : Text × Text := ((skip cs).takeWhile (!blank ·), (skip cs).dropWhile (!blank ·))

def labelStart (c : Char) : Bool := c.isAlpha || c = '_'

def labelChar (c : Char) : Bool := c.isAlphanum || c = '_'

def isLabelName : Text → Bool
  | [] => false
  | c :: cs => labelStart c && cs.all labelChar

def nameChar (c : Char) : Bool := labelChar c || c = ':'

def isName : Text → Bool
  | [] => false
  | c :: cs => (labelStart c || c = ':') && cs.all nameChar

/-- The rest of a label value, after its opening quote. -/
def labelValue : Text → Option (Text × Text)
  | '"' :: rest => some ([], rest)
  | '\\' :: '\\' :: rest => (labelValue rest).map fun p => ('\\' :: p.1, p.2)
  | '\\' :: '"' :: rest => (labelValue rest).map fun p => ('"' :: p.1, p.2)
  | '\\' :: 'n' :: rest => (labelValue rest).map fun p => ('\n' :: p.1, p.2)
  | '\\' :: _ => none
  | '\n' :: _ => none
  | c :: rest => (labelValue rest).map fun p => (c :: p.1, p.2)
  | [] => none

def label (cs : Text) : Option ((Text × Text) × Text) :=
  if isLabelName (cs.takeWhile labelChar) then
    match skip (cs.dropWhile labelChar) with
    | '=' :: rest =>
      match skip rest with
      | '"' :: rest => (labelValue rest).map fun p => ((cs.takeWhile labelChar, p.1), p.2)
      | _ => none
    | _ => none
  else none

/-- The labels up to the closing brace; each takes a character at least. -/
def labels : ℕ → Text → Option (List (Text × Text) × Text)
  | 0, _ => none
  | n + 1, cs =>
    match skip cs with
    | '}' :: rest => some ([], rest)
    | cs =>
      (label cs).bind fun p =>
        match skip p.2 with
        | ',' :: rest => (labels n rest).map fun q => (p.1 :: q.1, q.2)
        | '}' :: rest => some ([p.1], rest)
        | _ => none

def optionalLabels (cs : Text) : Option (List (Text × Text) × Text) :=
  match skip cs with
  | '{' :: rest => labels rest.length rest
  | rest => some ([], rest)

/-- An integer, as a timestamp has to be. -/
def isInteger : Text → Bool
  | '-' :: cs => !cs.isEmpty && cs.all Char.isDigit
  | cs => !cs.isEmpty && cs.all Char.isDigit

def valueTypes : List Text := ["counter", "gauge", "histogram", "summary", "untyped"].map String.toList

/-- What follows a `#`. -/
def hash (cs : Text) : Option Line :=
  let (keyword, rest) := word cs
  if keyword = "HELP".toList then
    let (name, doc) := word rest
    if isName name then some (.help name (skip doc)) else none
  else if keyword = "TYPE".toList then
    let (name, rest) := word rest
    let (kind, rest) := word rest
    if isName name ∧ kind ∈ valueTypes ∧ skip rest = [] then some (.type name kind) else none
  else some (.comment cs)

section Reader

-- Whether a word is a number.
variable (numeric : Text → Bool)

/-- The value of a sample and its timestamp, if there is one. -/
def value (name : Text) (ls : List (Text × Text)) (cs : Text) : Option Sample :=
  let number := word cs
  let timestamp := word number.2
  if number.1 ≠ [] ∧ numeric number.1 ∧ (timestamp.1 = [] ∨ isInteger timestamp.1) ∧ skip timestamp.2 = [] then
    some ⟨name, ls, number.1, if timestamp.1 = [] then none else some timestamp.1⟩
  else none

def sample (cs : Text) : Option Sample :=
  if isName (cs.takeWhile nameChar) then
    (optionalLabels (cs.dropWhile nameChar)).bind fun p => value numeric (cs.takeWhile nameChar) p.1 p.2
  else none

/-- A line, unless it is blank. -/
def line (cs : Text) : Option (Option Line) :=
  match skip cs with
  | [] => some none
  | '#' :: rest => (hash rest).map some
  | cs => (sample numeric cs).map fun s => some (.sample s)

/-- The lines of a text, each of which ends with a line feed. -/
def lines : Text → Option (List Text)
  | [] => some []
  | c :: cs =>
    if c = '\n' then (lines cs).map ([] :: ·)
    else
      match lines cs with
      | some (l :: ls) => some ((c :: l) :: ls)
      | _ => none

/-- All lines but the blank ones. -/
def content : List Text → Option (List Line)
  | [] => some []
  | cs :: rest => (line numeric cs).bind fun l => (content rest).map (l.toList ++ ·)

/-- A line may follow another: there is one type and one help for a name, the type comes
before its samples, and no sample comes twice. -/
def Line.follows (before after : Line) : Bool :=
  match before, after with
  | .help name _, .help name' _ => name ≠ name'
  | .type name _, .type name' _ => name ≠ name'
  | .sample s, .type name _ => s.name ≠ name
  | .sample s, .sample s' => ¬ (s.name = s'.name ∧ s.labels = s'.labels)
  | _, _ => true

def parse (cs : Text) : Option (List Line) :=
  ((lines cs).bind (content numeric)).bind fun ls =>
    if ls.Pairwise (Line.follows · ·) then some ls else none

end Reader

/-! ### The writer -/

def rawLabel (l : Text × Text) : Text := l.1 ++ '=' :: '"' :: (l.2 ++ ['"'])

def rawLabels : List (Text × Text) → Text
  | [] => []
  | [l] => rawLabel l
  | l :: ls => rawLabel l ++ ',' :: rawLabels ls

/-- A sample with its label values as they are. -/
def Sample.raw (s : Sample) : Text :=
  s.name ++ (if s.labels = [] then [] else '{' :: (rawLabels s.labels ++ ['}'])) ++ ' ' :: s.value

def Line.raw : Line → Text
  | .help name doc => "# HELP ".toList ++ name ++ ' ' :: doc
  | .type name kind => "# TYPE ".toList ++ name ++ ' ' :: kind
  | .comment text => '#' :: text
  | .sample s => s.raw

@[simp] theorem Line.raw_help (name doc : Text) : (help name doc).raw = "# HELP ".toList ++ name ++ ' ' :: doc := rfl

@[simp] theorem Line.raw_type (name kind : Text) : (type name kind).raw = "# TYPE ".toList ++ name ++ ' ' :: kind := rfl

@[simp] theorem Line.raw_sample (s : Sample) : (sample s).raw = s.raw := rfl

def write (ls : List Line) : Text := ls.flatMap fun l => l.raw ++ ['\n']

/-! ### The characters of names and values -/

/-- The characters that the format asks to escape in a label value. -/
def special (c : Char) : Bool := c = '"' || c = '\\' || c = '\n'

/-- No character of the text has to be escaped. -/
def Plain (cs : Text) : Prop := ∀ c ∈ cs, special c = false

instance (cs : Text) : Decidable (Plain cs) := inferInstanceAs (Decidable (∀ c ∈ cs, special c = false))

/-- A character that neither ends a word, nor a line, nor a label value. -/
def solid (c : Char) : Bool := !blank c && !special c

theorem solid_of_nameChar {c : Char} (h : nameChar c) : solid c := by
  by_contra hsolid
  have hcases : c = ' ' ∨ c = '\t' ∨ c = '"' ∨ c = '\\' ∨ c = '\n' := by
    simp only [solid, blank, special, Bool.and_eq_true, Bool.not_eq_true', Bool.or_eq_false_iff,
      decide_eq_false_iff_not] at hsolid
    tauto
  rcases hcases with rfl | rfl | rfl | rfl | rfl <;> revert h <;> decide

theorem nameChar_of_labelChar {c : Char} (h : labelChar c) : nameChar c := by rw [nameChar, h, Bool.true_or]

theorem labelChar_of_labelStart {c : Char} (h : labelStart c) : labelChar c := by
  simp only [labelStart, labelChar, Char.isAlphanum, Bool.or_eq_true] at h ⊢
  tauto

theorem labelChar_of_isLabelName {cs : Text} (h : isLabelName cs) : ∀ c ∈ cs, labelChar c := by
  cases cs with
  | nil => exact fun c hc => absurd hc List.not_mem_nil
  | cons c cs =>
    obtain ⟨hstart, hall⟩ := (Bool.and_eq_true _ _).mp h
    exact List.forall_mem_cons.mpr ⟨labelChar_of_labelStart hstart, fun d hd => List.all_eq_true.mp hall d hd⟩

theorem nameChar_of_isName {cs : Text} (h : isName cs) : ∀ c ∈ cs, nameChar c := by
  cases cs with
  | nil => exact fun c hc => absurd hc List.not_mem_nil
  | cons c cs =>
    obtain ⟨hstart, hall⟩ := (Bool.and_eq_true _ _).mp h
    refine List.forall_mem_cons.mpr ⟨?_, fun d hd => List.all_eq_true.mp hall d hd⟩
    rcases (Bool.or_eq_true _ _).mp hstart with hstart | hcolon
    · exact nameChar_of_labelChar (labelChar_of_labelStart hstart)
    · rw [nameChar, hcolon, Bool.or_true]

theorem ne_nil_of_isName {cs : Text} (h : isName cs) : cs ≠ [] := by
  rintro rfl
  cases h

theorem ne_nil_of_isLabelName {cs : Text} (h : isLabelName cs) : cs ≠ [] := by
  rintro rfl
  cases h

theorem blank_of_solid {c : Char} (h : solid c) : blank c = false := by
  simp only [solid, Bool.and_eq_true, Bool.not_eq_true'] at h
  exact h.1

theorem special_of_solid {c : Char} (h : solid c) : special c = false := by
  simp only [solid, Bool.and_eq_true, Bool.not_eq_true'] at h
  exact h.2

theorem skip_of_solid {c : Char} (h : solid c) (cs : Text) : skip (c :: cs) = c :: cs :=
  List.dropWhile_cons_of_neg (by simp [blank_of_solid h])

/-! ### What is written is read -/

theorem takeWhile_stop {p : Char → Bool} {cs : Text} {c : Char} (h : ∀ d ∈ cs, p d) (hc : p c = false) (rest : Text) :
    (cs ++ c :: rest).takeWhile p = cs ∧ (cs ++ c :: rest).dropWhile p = c :: rest := by
  constructor
  · rw [List.takeWhile_append_of_pos h, List.takeWhile_cons_of_neg (by simp [hc]), List.append_nil]
  · rw [List.dropWhile_append_of_pos h, List.dropWhile_cons_of_neg (by simp [hc])]

theorem word_stop {cs rest : Text} {c : Char} (h : ∀ d ∈ cs, solid d) (hne : cs ≠ []) (hc : blank c) :
    word (cs ++ c :: rest) = (cs, c :: rest) := by
  obtain ⟨d, ds, rfl⟩ := List.exists_cons_of_ne_nil hne
  have hskip : skip (d :: ds ++ c :: rest) = d :: ds ++ c :: rest := skip_of_solid (h d List.mem_cons_self) _
  have hds : ∀ e ∈ d :: ds, (fun e => !blank e) e = true := fun e he => by simp [blank_of_solid (h e he)]
  have hstop : _ ∧ (d :: ds ++ c :: rest).dropWhile (!blank ·) = _ := takeWhile_stop hds (by simp [hc]) rest
  rw [word, hskip]
  exact Prod.ext hstop.1 hstop.2

theorem word_end {cs : Text} (h : ∀ d ∈ cs, solid d) : word cs = (cs, []) := by
  have hskip : skip cs = cs := by
    cases cs with
    | nil => rfl
    | cons d ds => exact skip_of_solid (h d List.mem_cons_self) ds
  have hall : ∀ d ∈ cs, (fun d => !blank d) d = true := fun d hd => by simp [blank_of_solid (h d hd)]
  rw [word, hskip]
  exact Prod.ext (List.takeWhile_eq_self_iff.mpr hall) (List.dropWhile_eq_nil_iff.mpr hall)

theorem word_blank {cs : Text} {c : Char} (hc : blank c) : word (c :: cs) = word cs := by
  rw [word, word, skip, List.dropWhile_cons_of_pos hc, skip]

theorem labelValue_raw {v : Text} (h : Plain v) (rest : Text) : labelValue (v ++ '"' :: rest) = some (v, rest) := by
  induction v with
  | nil => rfl
  | cons c v ih =>
    obtain ⟨hc, hv⟩ := List.forall_mem_cons.mp h
    have hne : c ≠ '"' ∧ c ≠ '\\' ∧ c ≠ '\n' := by
      simp only [special, Bool.or_eq_false_iff, decide_eq_false_iff_not] at hc
      tauto
    rw [List.cons_append, labelValue]
    · rw [ih hv]
      rfl
    all_goals simp_all

theorem label_raw {l : Text × Text} (hname : isLabelName l.1) (hvalue : Plain l.2) (rest : Text) :
    label (rawLabel l ++ rest) = some (l, rest) := by
  obtain ⟨k, v⟩ := l
  have htext : rawLabel (k, v) ++ rest = k ++ '=' :: '"' :: (v ++ '"' :: rest) := by simp [rawLabel]
  have hstop := takeWhile_stop (labelChar_of_isLabelName hname) (by decide : labelChar '=' = false)
    ('"' :: (v ++ '"' :: rest))
  rw [htext, label, hstop.1, hstop.2, if_pos hname]
  show (labelValue (v ++ '"' :: rest)).map (fun p => ((k, p.1), p.2)) = _
  rw [labelValue_raw hvalue]
  rfl

/-- The labels of a sample that can be written. -/
def Labelled (ls : List (Text × Text)) : Prop := ∀ l ∈ ls, isLabelName l.1

theorem skip_rawLabel {l : Text × Text} (h : isLabelName l.1) (rest : Text) :
    skip (rawLabel l ++ rest) = rawLabel l ++ rest ∧ ∀ tail, rawLabel l ++ rest ≠ '}' :: tail := by
  obtain ⟨k, v⟩ := l
  obtain ⟨c, cs, rfl⟩ := List.exists_cons_of_ne_nil (ne_nil_of_isLabelName h)
  have hc : labelChar c := labelChar_of_isLabelName h c List.mem_cons_self
  refine ⟨skip_of_solid (solid_of_nameChar (nameChar_of_labelChar hc)) _, fun tail heq => ?_⟩
  cases heq
  revert hc
  decide

theorem labels_raw {ls : List (Text × Text)} (hne : ls ≠ []) (hnames : Labelled ls) (hvalues : ∀ l ∈ ls, Plain l.2)
    (rest : Text) {n : ℕ} (hn : ls.length ≤ n) : labels n (rawLabels ls ++ '}' :: rest) = some (ls, rest) := by
  induction ls generalizing n with
  | nil => exact absurd rfl hne
  | cons l ls ih =>
    obtain ⟨hname, hnames⟩ := List.forall_mem_cons.mp hnames
    obtain ⟨hvalue, hvalues⟩ := List.forall_mem_cons.mp hvalues
    obtain ⟨n, rfl⟩ : ∃ m, n = m + 1 := ⟨n - 1, by simp only [List.length_cons] at hn; omega⟩
    have hn : ls.length ≤ n := by simpa using hn
    cases ls with
    | nil =>
      obtain ⟨hskip, hopen⟩ := skip_rawLabel hname ('}' :: rest)
      simp only [rawLabels]
      rw [labels, hskip]
      split
      · exact absurd ‹_› (hopen _)
      · rw [label_raw hname hvalue]
        rfl
    | cons l' ls =>
      have htext : rawLabels (l :: l' :: ls) ++ '}' :: rest =
          rawLabel l ++ ',' :: (rawLabels (l' :: ls) ++ '}' :: rest) := by
        simp [rawLabels]
      obtain ⟨hskip, hopen⟩ := skip_rawLabel hname (',' :: (rawLabels (l' :: ls) ++ '}' :: rest))
      rw [htext, labels, hskip]
      split
      · exact absurd ‹_› (hopen _)
      · rw [label_raw hname hvalue]
        show (labels n (rawLabels (l' :: ls) ++ '}' :: rest)).map (fun q => (l :: q.1, q.2)) = _
        rw [ih (List.cons_ne_nil _ _) hnames hvalues hn]
        rfl

theorem length_le_rawLabels (ls : List (Text × Text)) : ls.length ≤ (rawLabels ls).length := by
  induction ls with
  | nil => exact le_rfl
  | cons l ls ih =>
    cases ls with
    | nil =>
      simp only [rawLabels, rawLabel, List.length_append, List.length_cons]
      omega
    | cons l' ls =>
      simp only [rawLabels, List.length_append, List.length_cons] at ih ⊢
      omega

section Reader

variable {numeric : Text → Bool}

/-- A sample that can be written. -/
structure Sample.Formed (numeric : Text → Bool) (s : Sample) : Prop where
  name : isName s.name
  labels : Labelled s.labels
  value : s.value ≠ []
  solid : ∀ c ∈ s.value, Exposition.solid c ∧ c ≠ '{'
  numeric : numeric s.value
  timestamp : s.timestamp = none

/-- A line that can be written: a text of help is a line of its own. -/
def Line.Formed (numeric : Text → Bool) : Line → Prop
  | .help name doc => isName name ∧ skip doc = doc ∧ Plain doc
  | .type name kind => isName name ∧ kind ∈ valueTypes
  | .comment _ => False
  | .sample s => s.Formed numeric

/-- No label value of the line has to be escaped. -/
def Line.PlainLabels : Line → Prop
  | .sample s => ∀ l ∈ s.labels, Plain l.2
  | _ => True

theorem sample_raw {s : Sample} (h : s.Formed numeric) (hplain : ∀ l ∈ s.labels, Plain l.2) :
    sample numeric s.raw = some s := by
  obtain ⟨name, ls, value, timestamp⟩ := s
  obtain ⟨hname, hlabels, hvalue, hsolid, hnumeric, rfl⟩ := h
  have hsolid' : ∀ c ∈ value, solid c := fun c hc => (hsolid c hc).1
  have hread : ∀ tail rest : Text, optionalLabels tail = some (ls, rest) → word rest = (value, []) →
      (name ++ tail).takeWhile nameChar = name → (name ++ tail).dropWhile nameChar = tail →
        sample numeric (name ++ tail) = some ⟨name, ls, value, none⟩ := by
    intro tail rest htail hword htake hdrop
    rw [sample, htake, hdrop, if_pos hname, htail, Option.bind_some, Exposition.value, hword]
    exact if_pos ⟨hvalue, hnumeric, .inl rfl, rfl⟩
  have hchars := nameChar_of_isName hname
  by_cases hnil : ls = []
  · subst hnil
    have hstop := takeWhile_stop hchars (by decide : nameChar ' ' = false) value
    have hraw : Sample.raw ⟨name, [], value, none⟩ = name ++ ' ' :: value := by simp [Sample.raw]
    rw [hraw]
    refine hread (' ' :: value) value ?_ (word_end hsolid') hstop.1 hstop.2
    obtain ⟨c, cs, rfl⟩ := List.exists_cons_of_ne_nil hvalue
    obtain ⟨hc, hne⟩ := hsolid c List.mem_cons_self
    have hskip : skip (' ' :: c :: cs) = c :: cs := skip_of_solid hc cs
    rw [optionalLabels, hskip]
    split
    · cases ‹c :: cs = '{' :: _›
      exact absurd rfl hne
    · rfl
  · have hstop := takeWhile_stop hchars (by decide : nameChar '{' = false) (rawLabels ls ++ '}' :: ' ' :: value)
    have hraw : Sample.raw ⟨name, ls, value, none⟩ = name ++ '{' :: (rawLabels ls ++ '}' :: ' ' :: value) := by
      simp [Sample.raw, hnil]
    rw [hraw]
    refine hread _ _ ?_ ((word_blank (by decide : blank ' ')).trans (word_end hsolid')) hstop.1 hstop.2
    show labels _ (rawLabels ls ++ '}' :: ' ' :: value) = _
    refine labels_raw hnil hlabels hplain _ ?_
    have hlength := length_le_rawLabels ls
    simp only [List.length_append]
    omega

theorem hash_help {name doc : Text} (hname : isName name) (hdoc : skip doc = doc) :
    hash (" HELP ".toList ++ name ++ ' ' :: doc) = some (.help name doc) := by
  have hkeyword : word (" HELP ".toList ++ name ++ ' ' :: doc) = ("HELP".toList, ' ' :: (name ++ ' ' :: doc)) := rfl
  have hword : word (' ' :: (name ++ ' ' :: doc)) = (name, ' ' :: doc) := by
    rw [word_blank (by decide)]
    exact word_stop (fun c hc => solid_of_nameChar (nameChar_of_isName hname c hc)) (ne_nil_of_isName hname) (by decide)
  have hskip : skip (' ' :: doc) = doc := hdoc
  simp only [hash, hkeyword, hword, hname, hskip, if_true]

theorem solid_of_valueTypes : ∀ kind ∈ valueTypes, ∀ c ∈ kind, solid c := by decide

theorem hash_type {name kind : Text} (hname : isName name) (hkind : kind ∈ valueTypes) :
    hash (" TYPE ".toList ++ name ++ ' ' :: kind) = some (.type name kind) := by
  have hkeyword : word (" TYPE ".toList ++ name ++ ' ' :: kind) = ("TYPE".toList, ' ' :: (name ++ ' ' :: kind)) := rfl
  have hword : word (' ' :: (name ++ ' ' :: kind)) = (name, ' ' :: kind) := by
    rw [word_blank (by decide)]
    exact word_stop (fun c hc => solid_of_nameChar (nameChar_of_isName hname c hc)) (ne_nil_of_isName hname) (by decide)
  have hlast : word (' ' :: kind) = (kind, []) := by
    rw [word_blank (by decide)]
    exact word_end (solid_of_valueTypes kind hkind)
  have hne : ¬ "TYPE".toList = "HELP".toList := by decide
  simp only [hash, hkeyword, hword, hlast, if_neg hne, if_true, hname, hkind, skip, List.dropWhile_nil, and_self]

theorem Sample.Formed.head_raw {s : Sample} (h : s.Formed numeric) : ∃ c cs, s.raw = c :: cs ∧ nameChar c := by
  obtain ⟨c, cs, hname⟩ := List.exists_cons_of_ne_nil (ne_nil_of_isName h.name)
  have hc : nameChar c := nameChar_of_isName h.name c (hname ▸ List.mem_cons_self)
  exact ⟨c, _, by rw [Sample.raw, hname, List.cons_append, List.cons_append], hc⟩

theorem line_raw {l : Line} (h : l.Formed numeric) (hplain : l.PlainLabels) : line numeric l.raw = some (some l) := by
  cases l with
  | help name doc =>
    have hhash : line numeric (Line.help name doc).raw = (hash (" HELP ".toList ++ name ++ ' ' :: doc)).map some := rfl
    rw [hhash, hash_help h.1 h.2.1]
    rfl
  | type name kind =>
    have htype : line numeric (Line.type name kind).raw = (hash (" TYPE ".toList ++ name ++ ' ' :: kind)).map some :=
      rfl
    rw [htype, hash_type h.1 h.2]
    rfl
  | comment => cases h
  | sample s =>
    have hs : s.Formed numeric := h
    obtain ⟨c, cs, hraw, hc⟩ := hs.head_raw
    have hskip : skip s.raw = s.raw := by rw [hraw, skip_of_solid (solid_of_nameChar hc)]
    unfold line
    rw [Line.raw_sample, hskip]
    split
    · exact absurd (hraw.symm.trans ‹s.raw = []›) (List.cons_ne_nil _ _)
    · rename_i heq
      cases hraw.symm.trans heq
      exact absurd hc (by decide)
    · rw [sample_raw hs hplain]
      rfl

/-! ### A text of lines -/

theorem lines_append {l : Text} (h : '\n' ∉ l) (rest : Text) :
    lines (l ++ '\n' :: rest) = (lines rest).map (l :: ·) := by
  induction l with
  | nil => rw [List.nil_append, lines, if_pos rfl]
  | cons c l ih =>
    obtain ⟨hc, hl⟩ := not_or.mp (mt List.mem_cons.mpr h)
    rw [List.cons_append, lines, if_neg (Ne.symm hc), ih hl]
    cases lines rest <;> rfl

theorem not_mem_of_solid {cs : Text} (h : ∀ c ∈ cs, solid c) : '\n' ∉ cs :=
  fun hmem => absurd (h _ hmem) (by decide)

theorem not_mem_of_plain {cs : Text} (h : Plain cs) : '\n' ∉ cs := fun hmem => absurd (h _ hmem) (by decide)

theorem solid_of_isName {cs : Text} (h : isName cs) : ∀ c ∈ cs, solid c :=
  fun c hc => solid_of_nameChar (nameChar_of_isName h c hc)

theorem solid_of_isLabelName {cs : Text} (h : isLabelName cs) : ∀ c ∈ cs, solid c :=
  fun c hc => solid_of_nameChar (nameChar_of_labelChar (labelChar_of_isLabelName h c hc))

theorem not_mem_rawLabels {ls : List (Text × Text)} (hnames : Labelled ls) (hvalues : ∀ l ∈ ls, Plain l.2) :
    '\n' ∉ rawLabels ls := by
  have hlabel : ∀ l ∈ ls, '\n' ∉ rawLabel l := by
    intro l hl
    have hname := not_mem_of_solid (solid_of_isLabelName (hnames l hl))
    have hvalue := not_mem_of_plain (hvalues l hl)
    simp [rawLabel, hname, hvalue]
  clear hnames hvalues
  induction ls with
  | nil => exact List.not_mem_nil
  | cons l ls ih =>
    obtain ⟨hl, hls⟩ := List.forall_mem_cons.mp hlabel
    cases ls with
    | nil => exact hl
    | cons l' ls =>
      have hrest := ih hls
      simp [rawLabels, hl, hrest]

theorem Line.Formed.unbroken {l : Line} (h : l.Formed numeric) (hplain : l.PlainLabels) : '\n' ∉ l.raw := by
  cases l with
  | help name doc =>
    have hname := not_mem_of_solid (solid_of_isName h.1)
    have hdoc := not_mem_of_plain h.2.2
    have hhead : '\n' ∉ "# HELP ".toList := by decide
    rw [Line.raw_help, List.mem_append, List.mem_append, List.mem_cons]
    exact not_or.mpr ⟨not_or.mpr ⟨hhead, hname⟩, not_or.mpr ⟨by decide, hdoc⟩⟩
  | type name kind =>
    have hname := not_mem_of_solid (solid_of_isName h.1)
    have hkind := not_mem_of_solid (solid_of_valueTypes kind h.2)
    have hhead : '\n' ∉ "# TYPE ".toList := by decide
    rw [Line.raw_type, List.mem_append, List.mem_append, List.mem_cons]
    exact not_or.mpr ⟨not_or.mpr ⟨hhead, hname⟩, not_or.mpr ⟨by decide, hkind⟩⟩
  | comment => cases h
  | sample s =>
    have hs : s.Formed numeric := h
    have hname := not_mem_of_solid (solid_of_isName hs.name)
    have hlabels := not_mem_rawLabels hs.labels hplain
    have hvalue := not_mem_of_solid fun c hc => (hs.solid c hc).1
    rw [Line.raw_sample, Sample.raw]
    by_cases hnil : s.labels = [] <;> simp [hnil, hname, hlabels, hvalue]

theorem lines_write {ls : List Line} (h : ∀ l ∈ ls, l.Formed numeric) (hplain : ∀ l ∈ ls, l.PlainLabels) :
    lines (write ls) = some (ls.map Line.raw) := by
  induction ls with
  | nil => rfl
  | cons l ls ih =>
    obtain ⟨hl, hls⟩ := List.forall_mem_cons.mp h
    obtain ⟨hpl, hpls⟩ := List.forall_mem_cons.mp hplain
    have htext : write (l :: ls) = l.raw ++ '\n' :: write ls := by simp [write]
    rw [htext, lines_append (hl.unbroken hpl), ih hls hpls]
    rfl

theorem content_raw {ls : List Line} (h : ∀ l ∈ ls, l.Formed numeric) (hplain : ∀ l ∈ ls, l.PlainLabels) :
    content numeric (ls.map Line.raw) = some ls := by
  induction ls with
  | nil => rfl
  | cons l ls ih =>
    obtain ⟨hl, hls⟩ := List.forall_mem_cons.mp h
    obtain ⟨hpl, hpls⟩ := List.forall_mem_cons.mp hplain
    rw [List.map_cons, content, line_raw hl hpl, ih hls hpls]
    rfl

theorem parse_write {ls : List Line} (h : ∀ l ∈ ls, l.Formed numeric) (hplain : ∀ l ∈ ls, l.PlainLabels)
    (horder : ls.Pairwise (Line.follows · ·)) : parse numeric (write ls) = some ls := by
  rw [parse, lines_write h hplain, Option.bind_some, content_raw h hplain, Option.bind_some, if_pos horder]

/-! ### The order of lines -/

def Line.name : Line → Text
  | .help name _ => name
  | .type name _ => name
  | .comment _ => []
  | .sample s => s.name

theorem follows_of_name {before after : Line} (h : before.name ≠ after.name) : before.follows after := by
  have hname : ∀ s s' : Sample, s.name ≠ s'.name → ¬ (s.name = s'.name ∧ s.labels = s'.labels) := fun s s' hne => by
    rintro ⟨heq, -⟩
    exact hne heq
  cases before <;> cases after <;> first | rfl | exact decide_eq_true h | exact decide_eq_true (hname _ _ h)

theorem pairwise_append_of_names {ls ls' : List Line} (h : ls.Pairwise (Line.follows · ·))
    (h' : ls'.Pairwise (Line.follows · ·)) (hne : ∀ l ∈ ls, ∀ l' ∈ ls', l.name ≠ l'.name) :
    (ls ++ ls').Pairwise (Line.follows · ·) :=
  List.pairwise_append.mpr ⟨h, h', fun l hl l' hl' => follows_of_name (hne l hl l' hl')⟩

/-- A help and a type with samples of their name, no two of which have the same labels. -/
theorem pairwise_family {α : Type*} {name doc kind : Text} (f : α → Sample) {xs : List α}
    (h : xs.Pairwise fun x y => (f x).labels ≠ (f y).labels) :
    ([Line.help name doc, Line.type name kind] ++ xs.map fun x => Line.sample (f x)).Pairwise (Line.follows · ·) := by
  refine List.pairwise_cons.mpr ⟨fun l hl => ?_, List.pairwise_cons.mpr ⟨fun l hl => ?_, ?_⟩⟩
  · rcases List.mem_cons.mp hl with rfl | hl
    · rfl
    · obtain ⟨x, -, rfl⟩ := List.mem_map.mp hl
      rfl
  · obtain ⟨x, -, rfl⟩ := List.mem_map.mp hl
    rfl
  · refine List.pairwise_map.mpr (h.imp fun {x y} hne => ?_)
    have hsame : ¬ ((f x).name = (f y).name ∧ (f x).labels = (f y).labels) := fun heq => hne heq.2
    exact decide_eq_true hsame

/-! ### The marks of a text

Every label that is read takes two quotes, the marks of its value and one more mark for each
of its special characters, so a text has to have at least as many. -/

def mark (c : Char) : Bool := c = '"' || c = '\\'

def marks (cs : Text) : ℕ := cs.countP mark

def specials (cs : Text) : ℕ := cs.countP special

/-- The marks that a label takes. -/
def weight (l : Text × Text) : ℕ := 2 + marks l.2 + specials l.2

def Line.labels : Line → List (Text × Text)
  | .sample s => s.labels
  | _ => []

def Line.weight (l : Line) : ℕ := (l.labels.map Exposition.weight).sum

theorem marks_append (cs ds : Text) : marks (cs ++ ds) = marks cs + marks ds := List.countP_append

theorem marks_cons_of_not {c : Char} (h : mark c = false) (cs : Text) : marks (c :: cs) = marks cs :=
  List.countP_cons_of_neg (by simp [h])

theorem marks_cons {c : Char} (h : mark c) (cs : Text) : marks (c :: cs) = marks cs + 1 :=
  List.countP_cons_of_pos h

theorem marks_dropWhile_le (p : Char → Bool) (cs : Text) : marks (cs.dropWhile p) ≤ marks cs :=
  (List.dropWhile_suffix p).sublist.countP_le

theorem marks_skip_le (cs : Text) : marks (skip cs) ≤ marks cs := marks_dropWhile_le blank cs

theorem marks_labelValue {cs v rest : Text} (h : labelValue cs = some (v, rest)) :
    marks cs = marks v + specials v + 1 + marks rest := by
  induction cs using labelValue.induct generalizing v rest with
  | case1 rest' =>
    cases h
    rw [marks_cons (by decide)]
    exact Nat.add_comm _ _
  | case2 cs ih =>
    obtain ⟨⟨v', rest'⟩, htail, heq⟩ := Option.map_eq_some_iff.mp h
    cases heq
    have hrest := ih htail
    dsimp only
    rw [marks_cons (by decide), marks_cons (by decide), marks_cons (by decide), specials,
      List.countP_cons_of_pos (by decide), ← specials]
    omega
  | case3 cs ih =>
    obtain ⟨⟨v', rest'⟩, htail, heq⟩ := Option.map_eq_some_iff.mp h
    cases heq
    have hrest := ih htail
    dsimp only
    rw [marks_cons (by decide), marks_cons (by decide), marks_cons (by decide), specials,
      List.countP_cons_of_pos (by decide), ← specials]
    omega
  | case4 cs ih =>
    obtain ⟨⟨v', rest'⟩, htail, heq⟩ := Option.map_eq_some_iff.mp h
    cases heq
    have hrest := ih htail
    dsimp only
    rw [marks_cons (by decide), marks_cons_of_not (by decide), marks_cons_of_not (by decide), specials,
      List.countP_cons_of_pos (by decide), ← specials]
    omega
  | case5 cs h1 h2 h3 => simp_all [labelValue]
  | case6 cs => simp [labelValue] at h
  | case7 c cs hquote hback hbackquote hn hslash hline ih =>
    have hc : c ≠ '"' ∧ c ≠ '\\' ∧ c ≠ '\n' := ⟨fun e => hquote e, fun e => hslash e, fun e => hline e⟩
    have hmark : mark c = false := by simp [mark, hc]
    have hspecial : special c = false := by simp [special, hc]
    rw [labelValue] at h
    · obtain ⟨⟨v', rest'⟩, htail, heq⟩ := Option.map_eq_some_iff.mp h
      cases heq
      have hrest := ih htail
      dsimp only
      rw [marks_cons_of_not hmark, marks_cons_of_not hmark, specials, List.countP_cons_of_neg (by simp [hspecial]),
        ← specials]
      omega
    all_goals assumption
  | case8 => cases h

theorem marks_label {cs rest : Text} {l : Text × Text} (h : label cs = some (l, rest)) :
    weight l + marks rest ≤ marks cs := by
  rw [label] at h
  split at h
  · split at h
    · rename_i rest₁ heq₁
      split at h
      · rename_i rest₂ heq₂
        obtain ⟨⟨v, rest₃⟩, hvalue, heq⟩ := Option.map_eq_some_iff.mp h
        cases heq
        have h₀ := marks_dropWhile_le labelChar cs
        have h₁ := marks_skip_le (cs.dropWhile labelChar)
        have h₂ := marks_skip_le rest₁
        have h₃ := marks_labelValue hvalue
        rw [heq₁, marks_cons_of_not (by decide)] at h₁
        rw [heq₂, marks_cons (by decide)] at h₂
        simp only [weight]
        omega
      · cases h
    · cases h
  · cases h

theorem marks_labels {n : ℕ} {cs rest : Text} {ls : List (Text × Text)} (h : labels n cs = some (ls, rest)) :
    (ls.map weight).sum + marks rest ≤ marks cs := by
  induction n generalizing cs ls rest with
  | zero => cases h
  | succ n ih =>
    have h₀ := marks_skip_le cs
    rw [labels] at h
    split at h
    · rename_i rest₁ heq₁
      cases h
      rw [heq₁, marks_cons_of_not (by decide)] at h₀
      simpa using h₀
    · obtain ⟨⟨l, rest₁⟩, hlabel, h⟩ := Option.bind_eq_some_iff.mp h
      have h₁ := marks_label hlabel
      have h₂ := marks_skip_le rest₁
      dsimp only at h
      split at h
      · rename_i rest₂ heq₂
        obtain ⟨⟨ls', rest₃⟩, htail, heq⟩ := Option.map_eq_some_iff.mp h
        cases heq
        have h₃ := ih htail
        rw [heq₂, marks_cons_of_not (by decide)] at h₂
        simp only [List.map_cons, List.sum_cons]
        omega
      · rename_i rest₂ heq₂
        cases h
        rw [heq₂, marks_cons_of_not (by decide)] at h₂
        simp only [List.map_cons, List.map_nil, List.sum_cons, List.sum_nil]
        omega
      · cases h

theorem marks_sample {cs : Text} {s : Sample} (h : sample numeric cs = some s) :
    (s.labels.map weight).sum ≤ marks cs := by
  rw [sample] at h
  split at h
  · obtain ⟨⟨ls, rest⟩, hlabels, h⟩ := Option.bind_eq_some_iff.mp h
    have hs : s.labels = ls := by
      simp only [Exposition.value] at h
      split at h
      · cases h
        rfl
      · cases h
    have h₀ := marks_dropWhile_le nameChar cs
    have h₁ := marks_skip_le (cs.dropWhile nameChar)
    rw [optionalLabels] at hlabels
    split at hlabels
    · rename_i rest₁ heq₁
      have h₂ := marks_labels hlabels
      rw [heq₁, marks_cons_of_not (by decide)] at h₁
      rw [hs]
      omega
    · cases hlabels
      simp [hs]
  · cases h

theorem hash_labels {cs : Text} {l : Line} (h : hash cs = some l) : l.labels = [] := by
  simp only [hash] at h
  split_ifs at h <;> cases h <;> rfl

theorem marks_line {cs : Text} {l : Line} (h : line numeric cs = some (some l)) : l.weight ≤ marks cs := by
  have hskip := marks_skip_le cs
  rw [line] at h
  split at h
  · cases h
  · obtain ⟨l', hhash, heq⟩ := Option.map_eq_some_iff.mp h
    cases heq
    simp [Line.weight, hash_labels hhash]
  · obtain ⟨s, hsample, heq⟩ := Option.map_eq_some_iff.mp h
    cases heq
    exact (marks_sample hsample).trans hskip

theorem marks_content {css : List Text} {ls : List Line} (h : content numeric css = some ls) :
    (ls.map Line.weight).sum ≤ (css.map marks).sum := by
  induction css generalizing ls with
  | nil =>
    cases h
    exact le_rfl
  | cons cs css ih =>
    obtain ⟨l, hline, h⟩ := Option.bind_eq_some_iff.mp h
    obtain ⟨ls', hrest, rfl⟩ := Option.map_eq_some_iff.mp h
    have hle := ih hrest
    cases l with
    | none =>
      simp only [Option.toList_none, List.nil_append, List.map_cons, List.sum_cons]
      omega
    | some l =>
      have hl := marks_line hline
      simp only [Option.toList_some, List.singleton_append, List.map_cons, List.sum_cons]
      omega

theorem marks_lines {cs : Text} {css : List Text} (h : lines cs = some css) : (css.map marks).sum = marks cs := by
  induction cs generalizing css with
  | nil =>
    cases h
    rfl
  | cons c cs ih =>
    rw [lines] at h
    split at h
    · rename_i hc
      subst hc
      obtain ⟨css', hrest, rfl⟩ := Option.map_eq_some_iff.mp h
      rw [marks_cons_of_not (by decide), ← ih hrest, List.map_cons, List.sum_cons]
      exact Nat.zero_add _
    · split at h
      · rename_i l ls hrest
        cases h
        have hcons : ∀ ds, marks (c :: ds) = marks [c] + marks ds := marks_append [c]
        have hsum := ih hrest
        simp only [List.map_cons, List.sum_cons] at hsum ⊢
        rw [hcons l, hcons cs]
        omega
      · cases h

theorem weight_parse {cs : Text} {ls : List Line} (h : parse numeric cs = some ls) :
    (ls.map Line.weight).sum ≤ marks cs := by
  obtain ⟨ls', hread, h⟩ := Option.bind_eq_some_iff.mp h
  obtain ⟨css, hlines, hcontent⟩ := Option.bind_eq_some_iff.mp hread
  split at h
  · cases h
    exact (marks_content hcontent).trans_eq (marks_lines hlines)
  · cases h

/-! ### Plain labels -/

theorem marks_of_solid {cs : Text} (h : ∀ c ∈ cs, solid c) : marks cs = 0 := by
  refine List.countP_eq_zero.mpr fun c hc => ?_
  have hspecial := special_of_solid (h c hc)
  simp only [special, Bool.or_eq_false_iff] at hspecial
  simp [mark, hspecial]

theorem marks_of_plain {cs : Text} (h : Plain cs) : marks cs = 0 := by
  refine List.countP_eq_zero.mpr fun c hc => ?_
  have hspecial := h c hc
  simp only [special, Bool.or_eq_false_iff] at hspecial
  simp [mark, hspecial]

theorem specials_eq_zero_iff {cs : Text} : specials cs = 0 ↔ Plain cs := by
  simp [specials, Plain, List.countP_eq_zero]

/-- The marks that the labels take in the text, as they are written. -/
def rawWeight (l : Text × Text) : ℕ := 2 + marks l.2

theorem marks_rawLabel {l : Text × Text} (h : isLabelName l.1) : marks (rawLabel l) = rawWeight l := by
  have hname := marks_of_solid (solid_of_isLabelName h)
  have hquote : marks ['"'] = 1 := rfl
  rw [rawLabel, marks_append, marks_cons_of_not (by decide), marks_cons (by decide), marks_append, hname, hquote,
    rawWeight]
  omega

theorem marks_rawLabels {ls : List (Text × Text)} (h : Labelled ls) :
    marks (rawLabels ls) = (ls.map rawWeight).sum := by
  induction ls with
  | nil => rfl
  | cons l ls ih =>
    obtain ⟨hl, hls⟩ := List.forall_mem_cons.mp h
    cases ls with
    | nil => exact marks_rawLabel hl
    | cons l' ls =>
      have hrest := ih hls
      rw [rawLabels, marks_append, marks_cons_of_not (by decide), marks_rawLabel hl, hrest]
      · rfl
      · exact List.cons_ne_nil _ _

theorem Sample.Formed.marks_raw {s : Sample} (h : s.Formed numeric) : marks s.raw = (s.labels.map rawWeight).sum := by
  have hname := marks_of_solid (solid_of_isName h.name)
  have hvalue := marks_of_solid fun c hc => (h.solid c hc).1
  have hblank : ∀ cs, marks (' ' :: cs) = marks cs := marks_cons_of_not (by decide)
  have hopen : ∀ cs, marks ('{' :: cs) = marks cs := marks_cons_of_not (by decide)
  have hclose : marks ['}'] = 0 := rfl
  rw [Sample.raw, marks_append, marks_append, hblank, hname, hvalue]
  by_cases hnil : s.labels = []
  · rw [if_pos hnil, hnil]
    rfl
  · rw [if_neg hnil, hopen, marks_append, marks_rawLabels h.labels, hclose]
    omega

theorem Line.Formed.marks_raw {l : Line} (h : l.Formed numeric) : marks l.raw = (l.labels.map rawWeight).sum := by
  have hblank : ∀ cs, marks (' ' :: cs) = marks cs := marks_cons_of_not (by decide)
  cases l with
  | help name doc =>
    have hname := marks_of_solid (solid_of_isName h.1)
    have hdoc := marks_of_plain h.2.2
    have hhead : marks "# HELP ".toList = 0 := by decide
    rw [Line.raw_help, marks_append, marks_append, hblank, hhead, hname, hdoc]
    rfl
  | type name kind =>
    have hname := marks_of_solid (solid_of_isName h.1)
    have hkind := marks_of_solid (solid_of_valueTypes kind h.2)
    have hhead : marks "# TYPE ".toList = 0 := by decide
    rw [Line.raw_type, marks_append, marks_append, hblank, hhead, hname, hkind]
    rfl
  | comment => cases h
  | sample s =>
    have hs : s.Formed numeric := h
    exact hs.marks_raw

theorem marks_write {ls : List Line} (h : ∀ l ∈ ls, l.Formed numeric) :
    marks (write ls) = (ls.map fun l => (l.labels.map rawWeight).sum).sum := by
  induction ls with
  | nil => rfl
  | cons l ls ih =>
    obtain ⟨hl, hls⟩ := List.forall_mem_cons.mp h
    have hbreak : marks ['\n'] = 0 := rfl
    have htext : write (l :: ls) = l.raw ++ ['\n'] ++ write ls := rfl
    rw [htext, marks_append, marks_append, hl.marks_raw, hbreak, ih hls, List.map_cons, List.sum_cons, Nat.add_zero]

theorem Line.plainLabels_iff {l : Line} : l.PlainLabels ↔ ∀ p ∈ l.labels, Plain p.2 := by
  cases l with
  | sample s => exact Iff.rfl
  | help | type | comment => simp [PlainLabels, labels]

/-- Text that is read as what was written has no label value to escape: the lines that are read
take all the marks that are in the text, and none are left for special characters. -/
theorem plainLabels_of_parse {ls ls' : List Line} (h : ∀ l ∈ ls, l.Formed numeric)
    (hparse : parse numeric (write ls) = some ls') (hperm : ls'.Perm ls) : ∀ l ∈ ls, l.PlainLabels := by
  have hle := weight_parse hparse
  rw [(hperm.map Line.weight).sum_eq, marks_write h] at hle
  have hsplit : ∀ ps : List (Text × Text), (ps.map weight).sum = (ps.map rawWeight).sum + (ps.map (specials ·.2)).sum :=
    fun ps => List.sum_map_add
  have hsum : (ls.map Line.weight).sum =
      (ls.map fun l => (l.labels.map rawWeight).sum).sum + (ls.map fun l => (l.labels.map (specials ·.2)).sum).sum := by
    rw [← List.sum_map_add]
    exact congrArg List.sum (List.map_congr_left fun l _ => hsplit l.labels)
  have hzero : (ls.map fun l => (l.labels.map (specials ·.2)).sum).sum = 0 := by omega
  intro l hl
  refine Line.plainLabels_iff.mpr fun p hp => specials_eq_zero_iff.mp ?_
  have hline := List.sum_eq_zero_iff_forall_eq_nat.mp hzero _ (List.mem_map_of_mem hl)
  exact List.sum_eq_zero_iff_forall_eq_nat.mp hline _ (List.mem_map_of_mem hp)

/-- What is written is read, exactly if no label value has a character to escape. -/
theorem parse_write_iff {ls : List Line} (h : ∀ l ∈ ls, l.Formed numeric) (horder : ls.Pairwise (Line.follows · ·)) :
    (∃ ls', parse numeric (write ls) = some ls' ∧ ls'.Perm ls) ↔ ∀ l ∈ ls, l.PlainLabels := by
  constructor
  · rintro ⟨ls', hparse, hperm⟩
    exact plainLabels_of_parse h hparse hperm
  · intro hplain
    exact ⟨ls, parse_write h hplain horder, List.Perm.refl ls⟩

end Reader

end AutomlApi.Exposition
