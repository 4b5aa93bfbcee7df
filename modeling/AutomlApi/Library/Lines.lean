import Mathlib.Data.List.Basic
import Mathlib.Data.String.Basic

/-! Lines read from bytes that arrive in pieces. A decoder of UTF-8 holds the bytes of an
unfinished character back, and a splitter the characters of an unfinished line; wherever
the bytes are cut, the lines are those of `str.splitlines`. -/

namespace AutomlApi.Lines

/-! ### Machines that read and write -/

section

variable {σ α β : Type*} {step : σ → α → σ × List β}

/-- What a machine writes over an input, and where it ends. -/
def feed (step : σ → α → σ × List β) (s : σ) : List α → σ × List β
  | [] => (s, [])
  | a :: as =>
    let next := step s a
    let rest := feed step next.1 as
    (rest.1, next.2 ++ rest.2)

theorem feed_append (s : σ) (as bs : List α) :
    feed step s (as ++ bs) =
      ((feed step (feed step s as).1 bs).1, (feed step s as).2 ++ (feed step (feed step s as).1 bs).2) := by
  induction as generalizing s with
  | nil => rfl
  | cons a as ih => simp only [List.cons_append, feed, ih, List.append_assoc]

/-- A machine does not see how its input is cut into pieces. -/
theorem feed_pieces (s : σ) (pieces : List (List α)) : feed (feed step) s pieces = feed step s pieces.flatten := by
  induction pieces generalizing s with
  | nil => rfl
  | cons as pieces ih => rw [feed, List.flatten_cons, feed_append, ih]

end

/-! ### Characters -/

def encode (text : List Char) : List UInt8 := text.flatMap String.utf8EncodeChar

/-- A byte, after those of a character that is not complete. -/
def nextByte (held : List UInt8) (b : UInt8) : List UInt8 × List Char :=
  match (held ++ [b]).toByteArray.utf8DecodeChar? 0 with
  | some c => ([], [c])
  | none => (held ++ [b], [])

theorem encode_append (s t : List Char) : encode (s ++ t) = encode s ++ encode t := List.flatMap_append

/-- The bytes of a character give it back, and none but the last of them does. -/
theorem feed_char {held bytes : List UInt8} {c : Char} (h : held ++ bytes = String.utf8EncodeChar c) (hb : bytes ≠ []) :
    feed nextByte held bytes = ([], [c]) := by
  have hwhole : (String.utf8EncodeChar c).toByteArray.utf8DecodeChar? 0 = some c := by
    have hc := ByteArray.utf8DecodeChar?_utf8EncodeChar_append (b := ByteArray.empty) (c := c)
    simpa using hc
  induction bytes generalizing held with
  | nil => exact absurd rfl hb
  | cons b bytes ih =>
    have hsplit : (held ++ [b]) ++ bytes = String.utf8EncodeChar c := by simpa using h
    have hdecoded : ∀ d, (held ++ [b]).toByteArray.utf8DecodeChar? 0 = some d → d = c ∧ bytes = [] := by
      intro d hd
      have happend := ByteArray.utf8DecodeChar?_append_eq_some hd bytes.toByteArray
      rw [← List.toByteArray_append, hsplit, hwhole] at happend
      cases happend
      have hsize := ByteArray.le_size_of_utf8DecodeChar?_eq_some hd
      have hlength := congrArg List.length hsplit
      rw [String.length_utf8EncodeChar, List.length_append] at hlength
      rw [List.size_toByteArray] at hsize
      exact ⟨rfl, List.length_eq_zero_iff.mp (by omega)⟩
    rw [feed]
    by_cases hlast : bytes = []
    · subst hlast
      rw [List.append_nil] at hsplit
      rw [nextByte, hsplit, hwhole]
      rfl
    · have hnone : (held ++ [b]).toByteArray.utf8DecodeChar? 0 = none :=
        Option.eq_none_iff_forall_ne_some.mpr fun d hd => hlast (hdecoded d hd).2
      rw [nextByte, hnone]
      dsimp only
      rw [ih hsplit hlast]
      rfl

theorem feed_encode (text : List Char) : feed nextByte [] (encode text) = ([], text) := by
  induction text with
  | nil => rfl
  | cons c text ih =>
    have hc : feed nextByte [] (String.utf8EncodeChar c) = ([], [c]) :=
      feed_char (List.nil_append _) String.utf8EncodeChar_ne_nil
    rw [encode, List.flatMap_cons, feed_append, hc]
    dsimp only
    rw [show text.flatMap String.utf8EncodeChar = encode text from rfl, ih]
    rfl

/-! ### Lines -/

/-- Where `str.splitlines` splits. -/
def isBreak (c : Char) : Bool :=
  c ∈ ['\n', '\x0b', '\x0c', '\r', '\x1c', '\x1d', '\x1e', '\x85', '\u2028', '\u2029']

/-- `splitlines` of a text, after the beginning of its first line. -/
def splitFrom (line : List Char) : List Char → List (List Char)
  | [] => if line = [] then [] else [line]
  | '\r' :: '\n' :: rest => line :: splitFrom [] rest
  | c :: rest => if isBreak c then line :: splitFrom [] rest else splitFrom (line ++ [c]) rest

def splitlines (text : List Char) : List (List Char) := splitFrom [] text

/-- An unfinished line, and whether a carriage return has ended it that a line feed may
follow. -/
structure Splitter where
  line : List Char
  returned : Bool

def Splitter.add (line : List Char) (c : Char) : Splitter × List (List Char) :=
  if c = '\r' then (⟨line, true⟩, [])
  else if isBreak c then (⟨[], false⟩, [line])
  else (⟨line ++ [c], false⟩, [])

def Splitter.next (s : Splitter) (c : Char) : Splitter × List (List Char) :=
  if s.returned then
    if c = '\n' then (⟨[], false⟩, [s.line])
    else ((Splitter.add [] c).1, s.line :: (Splitter.add [] c).2)
  else Splitter.add s.line c

/-- The last line, where the text ends. -/
def Splitter.flush (s : Splitter) : List (List Char) := if s.returned ∨ s.line ≠ [] then [s.line] else []

/-- What a splitter has not written yet, before the rest of the text. -/
def Splitter.ahead (s : Splitter) (text : List Char) : List (List Char) :=
  if s.returned then splitFrom s.line ('\r' :: text) else splitFrom s.line text

theorem splitFrom_return (line text : List Char) (h : text.head? ≠ some '\n') :
    splitFrom line ('\r' :: text) = line :: splitFrom [] text := by
  cases text with
  | nil => rfl
  | cons c text =>
    have hc : c ≠ '\n' := fun hc => h (by rw [hc]; rfl)
    rw [splitFrom]
    · rfl
    · intro rest _ heq
      exact hc (List.cons.inj heq).1

theorem splitFrom_cons (line text : List Char) {c : Char} (h : c ≠ '\r') :
    splitFrom line (c :: text) =
      if isBreak c then line :: splitFrom [] text else splitFrom (line ++ [c]) text := by
  rw [splitFrom]
  intro rest hc _
  exact h hc

theorem Splitter.ahead_add (line text : List Char) (c : Char) :
    (Splitter.add line c).2 ++ (Splitter.add line c).1.ahead text = splitFrom line (c :: text) := by
  unfold Splitter.add
  by_cases hr : c = '\r'
  · rw [if_pos hr, hr]
    rfl
  · rw [if_neg hr, splitFrom_cons line text hr]
    by_cases hb : isBreak c
    · rw [if_pos hb, if_pos hb]
      rfl
    · rw [if_neg hb, if_neg hb]
      rfl

theorem Splitter.ahead_next (s : Splitter) (c : Char) (text : List Char) :
    (s.next c).2 ++ (s.next c).1.ahead text = s.ahead (c :: text) := by
  unfold Splitter.next
  by_cases hreturned : s.returned
  · rw [if_pos hreturned, show s.ahead (c :: text) = splitFrom s.line ('\r' :: c :: text) from if_pos hreturned]
    by_cases hn : c = '\n'
    · rw [if_pos hn, hn]
      rfl
    · have hhead : (c :: text).head? ≠ some '\n' := fun h => hn (by simpa using h)
      rw [if_neg hn, List.cons_append, Splitter.ahead_add, splitFrom_return s.line (c :: text) hhead]
  · rw [if_neg hreturned, Splitter.ahead_add, show s.ahead (c :: text) = splitFrom s.line (c :: text) from
      if_neg hreturned]

theorem Splitter.ahead_nil (s : Splitter) : s.ahead [] = s.flush := by
  obtain ⟨line, returned⟩ := s
  cases returned <;> simp [Splitter.ahead, Splitter.flush, splitFrom, isBreak]

/-- Whatever the pieces of a text, a splitter writes its lines. -/
theorem Splitter.feed_eq (s : Splitter) (text : List Char) :
    (feed Splitter.next s text).2 ++ (feed Splitter.next s text).1.flush = s.ahead text := by
  induction text generalizing s with
  | nil => exact (Splitter.ahead_nil s).symm
  | cons c text ih => rw [feed, ← Splitter.ahead_next, List.append_assoc, ih]

theorem Splitter.next_add {line : List Char} {c : Char} (h : isBreak c = false) :
    Splitter.next ⟨line, false⟩ c = (⟨line ++ [c], false⟩, []) := by
  have hr : c ≠ '\r' := by
    rintro rfl
    cases h
  rw [Splitter.next, if_neg Bool.false_ne_true, Splitter.add, if_neg hr, if_neg (by simp [h])]

/-- A text without a break goes to the line. -/
theorem feed_unbroken {line text : List Char} (h : ∀ c ∈ text, isBreak c = false) :
    feed Splitter.next ⟨line, false⟩ text = (⟨line ++ text, false⟩, []) := by
  induction text generalizing line with
  | nil => rw [List.append_nil]; rfl
  | cons c text ih =>
    rw [feed, Splitter.next_add (h c List.mem_cons_self)]
    dsimp only
    rw [ih fun d hd => h d (List.mem_cons_of_mem _ hd), List.append_assoc]
    rfl

/-- A break other than a carriage return ends the line. -/
theorem feed_line {line text : List Char} {c : Char} (h : ∀ c ∈ text, isBreak c = false) (hc : isBreak c)
    (hr : c ≠ '\r') (rest : List Char) :
    feed Splitter.next ⟨line, false⟩ (text ++ c :: rest) =
      ((feed Splitter.next ⟨[], false⟩ rest).1, (line ++ text) :: (feed Splitter.next ⟨[], false⟩ rest).2) := by
  have hnext : Splitter.next ⟨line ++ text, false⟩ c = (⟨[], false⟩, [line ++ text]) := by
    rw [Splitter.next, if_neg Bool.false_ne_true, Splitter.add, if_neg hr, if_pos hc]
  rw [feed_append, feed_unbroken h, feed, hnext]
  rfl

/-- After a line feed no line is open. -/
theorem feed_lineFeed (s : Splitter) (text : List Char) :
    (feed Splitter.next s (text ++ ['\n'])).1 = ⟨[], false⟩ := by
  have hnext : ∀ t : Splitter, (t.next '\n').1 = ⟨[], false⟩ := by
    intro t
    unfold Splitter.next
    split <;> rfl
  rw [feed_append]
  exact hnext _

/-! ### From bytes to lines -/

structure Receiver where
  held : List UInt8
  splitter : Splitter

def Receiver.start : Receiver := ⟨[], ⟨[], false⟩⟩

def Receiver.next (r : Receiver) (b : UInt8) : Receiver × List (List Char) :=
  let chars := nextByte r.held b
  let lines := feed Splitter.next r.splitter chars.2
  (⟨chars.1, lines.1⟩, lines.2)

/-- The end of the bytes: a character that is not complete is replaced. -/
def Receiver.flush (r : Receiver) : List (List Char) :=
  let lines := feed Splitter.next r.splitter (if r.held = [] then [] else ['\uFFFD'])
  lines.2 ++ lines.1.flush

/-- The lines of bytes that arrive in pieces. -/
def iterLines (pieces : List (List UInt8)) : List (List Char) :=
  let lines := feed (feed Receiver.next) Receiver.start pieces
  lines.2 ++ lines.1.flush

theorem Receiver.feed_eq (r : Receiver) (bytes : List UInt8) :
    feed Receiver.next r bytes =
      (⟨(feed nextByte r.held bytes).1, (feed Splitter.next r.splitter (feed nextByte r.held bytes).2).1⟩,
        (feed Splitter.next r.splitter (feed nextByte r.held bytes).2).2) := by
  induction bytes generalizing r with
  | nil => rfl
  | cons b bytes ih => rw [feed, ih, feed, feed_append, Receiver.next]

theorem iterLines_eq {pieces : List (List UInt8)} {text : List Char} (h : pieces.flatten = encode text) :
    iterLines pieces =
      (feed Splitter.next ⟨[], false⟩ text).2 ++ (feed Splitter.next ⟨[], false⟩ text).1.flush := by
  rw [iterLines, feed_pieces, h, Receiver.feed_eq]
  simp only [Receiver.start, feed_encode, Receiver.flush, if_true]
  rfl

/-- Wherever its bytes are cut, a text has the lines of `splitlines`. -/
theorem iterLines_encode {pieces : List (List UInt8)} {text : List Char} (h : pieces.flatten = encode text) :
    iterLines pieces = splitlines text := by
  rw [iterLines_eq h]
  exact Splitter.feed_eq ⟨[], false⟩ text

end AutomlApi.Lines
